import Mathlib.Tactic

/-!
# A queue with one element in flight

The history of a queue: elements are put at its end, the element at its front is sent, any number
of times, and at last taken off. From the rule for each action it follows for the history that
elements are sent for the first time in the order in which they were put, and that an element is
taken before another one is sent. In a prompt history the element at the front is sent as soon as
it gets there, so that only what is behind it has not been sent.
-/

namespace FlightQueue

inductive Action (α : Type) where
  | put (a : α)
  | send (a : α)
  | take (a : α)

variable {α : Type}

/-- The queue after the actions. -/
def waiting : List (Action α) → List α :=
  List.foldl (fun q act =>
    match act with
    | .put a => q ++ [a]
    | .send _ => q
    | .take _ => q.tail) []

def puts (acts : List (Action α)) : List α :=
  acts.filterMap fun
    | .put a => some a
    | _ => none

def sends (acts : List (Action α)) : List α :=
  acts.filterMap fun
    | .send a => some a
    | _ => none

def takes (acts : List (Action α)) : List α :=
  acts.filterMap fun
    | .take a => some a
    | _ => none

/-- Every element is put once, and only the element at the front is sent and taken. -/
inductive Legal : List (Action α) → Prop where
  | nil : Legal []
  | put {acts : List (Action α)} {a : α} (h : Legal acts) (ha : a ∉ puts acts) :
      Legal (acts ++ [.put a])
  | send {acts : List (Action α)} {a : α} (h : Legal acts)
      (ha : (waiting acts).head? = some a) : Legal (acts ++ [.send a])
  | take {acts : List (Action α)} {a : α} (h : Legal acts)
      (ha : (waiting acts).head? = some a) : Legal (acts ++ [.take a])

section

variable {acts acts' : List (Action α)} {a : α}

/-- What is put waits at the back. -/
@[simp] theorem waiting_put : waiting (acts ++ [.put a]) = waiting acts ++ [a] := by
  simp [waiting]

/-- Sending does not take anything out of the queue. -/
@[simp] theorem waiting_send : waiting (acts ++ [.send a]) = waiting acts := by
  simp [waiting]

/-- What is taken leaves from the front. -/
@[simp] theorem waiting_take : waiting (acts ++ [.take a]) = (waiting acts).tail := by
  simp [waiting]

/-- What is put over two pieces of a history is put in the first and then in the second. -/
@[simp] theorem puts_append : puts (acts ++ acts') = puts acts ++ puts acts' := by
  simp [puts]

/-- What is sent over two pieces of a history is sent in the first and then in the second. -/
@[simp] theorem sends_append : sends (acts ++ acts') = sends acts ++ sends acts' := by
  simp [sends]

/-- What is taken over two pieces of a history is taken in the first and then in the second. -/
@[simp] theorem takes_append : takes (acts ++ acts') = takes acts ++ takes acts' := by
  simp [takes]

-- What one action adds to each of the three counts.
@[simp] theorem puts_put : puts [Action.put a] = [a] := rfl
@[simp] theorem puts_send : puts [Action.send a] = [] := rfl
@[simp] theorem puts_take : puts [Action.take a] = [] := rfl
@[simp] theorem sends_put : sends [Action.put a] = [] := rfl
@[simp] theorem sends_send : sends [Action.send a] = [a] := rfl
@[simp] theorem sends_take : sends [Action.take a] = [] := rfl
@[simp] theorem takes_put : takes [Action.put a] = [] := rfl
@[simp] theorem takes_send : takes [Action.send a] = [] := rfl
@[simp] theorem takes_take : takes [Action.take a] = [a] := rfl

/-- A part of a history puts a part of what it puts. -/
theorem puts_sublist (h : acts.Sublist acts') : (puts acts).Sublist (puts acts') := h.filterMap _

/-- An element is among those taken exactly if the history takes it. -/
theorem mem_takes : a ∈ takes acts ↔ Action.take a ∈ acts := by
  simp only [takes, List.mem_filterMap]
  constructor
  · rintro ⟨act, hact, ha⟩
    cases act with
    | take b =>
      obtain rfl := Option.some.inj ha
      exact hact
    | _ => cases ha
  · exact fun h => ⟨_, h, rfl⟩

end

namespace Legal

variable {acts : List (Action α)}

/-- A history is legal at every moment. -/
theorem of_append {acts' : List (Action α)} (h : Legal (acts ++ acts')) : Legal acts := by
  induction acts' using List.reverseRecOn with
  | nil => simpa using h
  | append_singleton acts' act ih =>
    rw [← List.append_assoc] at h
    refine ih ?_
    generalize hall : acts ++ acts' ++ [act] = all at h
    cases h with
    | nil => simp at hall
    | put h _ => exact (List.append_inj' hall rfl).1 ▸ h
    | send h _ => exact (List.append_inj' hall rfl).1 ▸ h
    | take h _ => exact (List.append_inj' hall rfl).1 ▸ h

/-- What was put was taken or waits. -/
theorem puts_eq (h : Legal acts) : puts acts = takes acts ++ waiting acts := by
  induction h with
  | nil => rfl
  | put _ _ ih => simp [ih]
  | send _ _ ih => simp [ih]
  | @take acts a _ ha ih =>
    obtain ⟨rest, hrest⟩ := List.head?_eq_some_iff.1 ha
    simp [ih, hrest]

/-- In a legal history nothing is put twice. -/
theorem nodup (h : Legal acts) : (puts acts).Nodup := by
  induction h with
  | nil => exact List.nodup_nil
  | put _ ha ih => simpa [List.nodup_append] using ⟨ih, fun b hb hab => ha (hab ▸ hb)⟩
  | send _ _ ih => simpa using ih
  | take _ _ ih => simpa using ih

/-- Only the element at the front is sent. -/
theorem head {pre post : List (Action α)} {a : α} (h : Legal (pre ++ .send a :: post)) :
    (waiting pre).head? = some a := by
  have hsplit : Legal (pre ++ [.send a] ++ post) := by simpa using h
  have hpre := hsplit.of_append
  generalize hall : pre ++ [Action.send a] = all at hpre
  cases hpre with
  | nil => simp at hall
  | send _ ha =>
    obtain ⟨rfl, hact⟩ := List.append_inj' hall rfl
    obtain rfl : a = _ := by simpa using hact
    exact ha
  | put _ _ => simpa using (List.append_inj' hall rfl).2
  | take _ _ => simpa using (List.append_inj' hall rfl).2

/-- Before another element is sent, the element sent before is taken. -/
theorem take_mem {pre mid post : List (Action α)} {a b : α}
    (h : Legal (pre ++ .send a :: mid ++ .send b :: post)) (hab : a ≠ b) : .take a ∈ mid := by
  have hb := h.head
  have hmid : Legal (pre ++ .send a :: mid) := h.of_append
  have ha := hmid.head
  have hpre : Legal pre := hmid.of_append
  obtain ⟨rest, hrest⟩ := List.head?_eq_some_iff.1 ha
  obtain ⟨rest', hrest'⟩ := List.head?_eq_some_iff.1 hb
  -- both moments see the same order of what was put
  have heq := hmid.puts_eq
  have hputs : puts (pre ++ .send a :: mid) = puts pre ++ puts mid := by
    simp [puts]
  have htakes : takes (pre ++ .send a :: mid) = takes pre ++ takes mid := by
    simp [takes]
  rw [hputs, htakes, hrest', hpre.puts_eq, hrest] at heq
  simp only [List.append_assoc, List.cons_append, List.append_cancel_left_eq] at heq
  rw [← mem_takes]
  cases hm : takes mid with
  | nil =>
    rw [hm] at heq
    exact absurd (List.cons.inj heq).1 hab
  | cons c cs =>
    rw [hm] at heq
    rw [(List.cons.inj heq).1]
    exact List.mem_cons_self

variable [DecidableEq α]

/-- What was sent was taken, or is at the front. -/
theorem sends_sublist (h : Legal acts) :
    (sends acts).eraseDups.Sublist (takes acts ++ (waiting acts).take 1) := by
  induction h with
  | nil => simp [sends]
  | @put acts a _ _ ih =>
    simp only [sends_append, sends_put, List.append_nil, takes_append, takes_put, waiting_put]
    refine ih.trans (List.Sublist.append_left ?_ _)
    cases waiting acts <;> simp
  | @send acts a h ha ih =>
    obtain ⟨rest, hrest⟩ := List.head?_eq_some_iff.1 ha
    simp only [sends_append, sends_send, takes_append, takes_send, List.append_nil, waiting_send,
      List.eraseDups_append]
    rw [hrest] at ih ⊢
    simp only [List.take_succ_cons, List.take_zero] at ih ⊢
    by_cases hmem : a ∈ sends acts
    · simpa [List.removeAll, hmem] using ih
    · have hnot : a ∉ (sends acts).eraseDups := by simpa using hmem
      have hold : (sends acts).eraseDups.Sublist (takes acts) := by
        obtain ⟨old, new, hsplit, hold, hnew⟩ := List.sublist_append_iff.1 ih
        rcases List.sublist_singleton.1 hnew with rfl | rfl
        · simpa [hsplit] using hold
        · exact absurd (by simp [hsplit]) hnot
      simpa [List.removeAll, hmem, List.eraseDups_cons] using hold
  | @take acts a h ha ih =>
    obtain ⟨rest, hrest⟩ := List.head?_eq_some_iff.1 ha
    simp only [sends_append, sends_take, List.append_nil, takes_append, takes_take, waiting_take,
      hrest, List.tail_cons]
    rw [hrest] at ih
    exact ih.trans (by simp)

/-- Elements are sent for the first time in the order in which they were put. -/
theorem order (h : Legal acts) : (sends acts).eraseDups.Sublist (puts acts) := by
  rw [h.puts_eq]
  exact h.sends_sublist.trans (List.Sublist.append_left (List.take_sublist 1 _) _)

/-- Behind the front, nothing has been sent. -/
theorem not_mem_sends_of_mem_tail (h : Legal acts) {a : α} (ha : a ∈ (waiting acts).tail) :
    a ∉ sends acts := by
  induction h with
  | nil => cases ha
  | @put acts b h hb ih =>
    rw [waiting_put] at ha
    rw [sends_append, sends_put, List.append_nil]
    intro hsent
    cases hw : waiting acts with
    | nil => simp [hw] at ha
    | cons first rest =>
      rw [hw, List.cons_append, List.tail_cons] at ha
      rcases List.mem_append.1 ha with hold | hnew
      · exact ih (by rwa [hw]) hsent
      · obtain rfl := List.mem_singleton.1 hnew
        exact hb (h.order.subset (List.mem_eraseDups.2 hsent))
  | @send acts b h hb ih =>
    rw [waiting_send] at ha
    rw [sends_append, sends_send]
    intro hsent
    rcases List.mem_append.1 hsent with hold | hnew
    · exact ih ha hold
    · -- the front is not behind itself
      obtain rfl := List.mem_singleton.1 hnew
      obtain ⟨rest, hrest⟩ := List.head?_eq_some_iff.1 hb
      have hnodup := h.nodup
      rw [h.puts_eq, hrest] at hnodup
      rw [hrest, List.tail_cons] at ha
      exact (List.nodup_cons.1 (List.nodup_append.1 hnodup).2.1).1 ha
  | @take acts b h hb ih =>
    rw [waiting_take] at ha
    rw [sends_append, sends_take, List.append_nil]
    exact ih (List.mem_of_mem_tail ha)

end Legal

/-! ## Prompt histories -/

/-- What was put was sent or is behind the front, and nothing is taken that was not sent. -/
structure Prompt (acts : List (Action α)) : Prop where
  sent : ∀ a ∈ puts acts, a ∈ sends acts ∨ a ∈ (waiting acts).tail
  taken : ∀ pre a post, acts = pre ++ .take a :: post → a ∈ sends pre

namespace Prompt

variable {acts : List (Action α)} {a b : α}

/-- A history in which nothing has happened leaves nothing unsent. -/
theorem nil : Prompt ([] : List (Action α)) where
  sent := by simp [puts]
  taken pre a post h := by simp at h

/-- Nothing but a take is to be looked at. -/
theorem taken_append (h : Prompt acts) {act : Action α} (hact : ∀ a, act = .take a → a ∈ sends acts)
    (pre : List (Action α)) (a : α) (post : List (Action α))
    (hacts : acts ++ [act] = pre ++ .take a :: post) : a ∈ sends pre := by
  rcases List.eq_nil_or_concat post with rfl | ⟨post, last, rfl⟩
  · obtain ⟨rfl, htake⟩ := List.append_inj' hacts rfl
    exact hact a (by simpa using htake)
  · have hassoc : acts ++ [act] = (pre ++ .take a :: post) ++ [last] := by simpa using hacts
    exact h.taken pre a post (List.append_inj' hassoc rfl).1

/-- Sending more keeps a history prompt. -/
theorem send (h : Prompt acts) : Prompt (acts ++ [.send a]) where
  sent b hb := by
    simp only [puts_append, puts_send, List.append_nil] at hb
    simp only [sends_append, sends_send, waiting_send, List.mem_append]
    rcases h.sent b hb with hsent | hwaits
    · exact .inl (.inl hsent)
    · exact .inr hwaits
  taken := h.taken_append fun _ hact => by cases hact

/-- Behind another element, an element waits. -/
theorem put_behind (h : Prompt acts) (hne : waiting acts ≠ []) : Prompt (acts ++ [.put a]) where
  sent b hb := by
    obtain ⟨front, rest, hfront⟩ := List.exists_cons_of_ne_nil hne
    simp only [puts_append, puts_put, List.mem_append, List.mem_singleton] at hb
    simp only [sends_append, sends_put, List.append_nil, waiting_put, hfront, List.cons_append,
      List.tail_cons, List.mem_append, List.mem_singleton]
    rcases hb with hold | rfl
    · rcases h.sent b hold with hsent | hwaits
      · exact .inl hsent
      · rw [hfront, List.tail_cons] at hwaits
        exact .inr (.inl hwaits)
    · exact .inr (.inr rfl)
  taken := h.taken_append fun _ hact => by cases hact

/-- The first element is sent at once. -/
theorem put_first (h : Prompt acts) (hempty : waiting acts = []) :
    Prompt (acts ++ [.put a] ++ [.send a]) where
  sent b hb := by
    simp only [puts_append, puts_put, puts_send, List.append_nil, List.mem_append,
      List.mem_singleton] at hb
    simp only [sends_append, sends_put, sends_send, List.append_nil, List.mem_append,
      List.mem_singleton]
    rcases hb with hold | rfl
    · rcases h.sent b hold with hsent | hwaits
      · exact .inl (.inl hsent)
      · simp [hempty] at hwaits
    · exact .inl (.inr rfl)
  taken pre b post hacts := by
    rcases List.eq_nil_or_concat post with rfl | ⟨post, last, rfl⟩
    · simpa using (List.append_inj' hacts rfl).2
    · have hassoc : acts ++ [.put a] ++ [.send a] = (pre ++ .take b :: post) ++ [last] := by
        simpa using hacts
      exact h.taken_append (fun _ hact => by cases hact) pre b post (List.append_inj' hassoc rfl).1

/-- What is at the front was sent. -/
theorem front (h : Prompt acts) (hlegal : Legal acts) (hfront : (waiting acts).head? = some a) :
    a ∈ sends acts := by
  obtain ⟨rest, hrest⟩ := List.head?_eq_some_iff.1 hfront
  have hput : a ∈ puts acts := by simp [hlegal.puts_eq, hrest]
  rcases h.sent a hput with hsent | hwaits
  · exact hsent
  · have hnodup := hlegal.nodup
    rw [hlegal.puts_eq, hrest] at hnodup
    have hnot : a ∉ rest := (List.nodup_cons.1 (List.nodup_append.1 hnodup).2.1).1
    rw [hrest, List.tail_cons] at hwaits
    exact absurd hwaits hnot

/-- The last element is taken. -/
theorem take_last (h : Prompt acts) (hlegal : Legal acts) (hlast : waiting acts = [a]) :
    Prompt (acts ++ [.take a]) where
  sent b hb := by
    simp only [puts_append, puts_take, List.append_nil] at hb
    simp only [sends_append, sends_take, List.append_nil, waiting_take, hlast]
    rcases h.sent b hb with hsent | hwaits
    · exact .inl hsent
    · simp [hlast] at hwaits
  taken := h.taken_append fun _ hact => by
    cases hact
    exact h.front hlegal (by simp [hlast])

/-- An element is taken, and the one behind it is sent at once. -/
theorem take_next (h : Prompt acts) (hlegal : Legal acts) {rest : List α}
    (hnext : waiting acts = a :: b :: rest) : Prompt (acts ++ [.take a] ++ [.send b]) where
  sent c hc := by
    simp only [puts_append, puts_take, puts_send, List.append_nil] at hc
    simp only [sends_append, sends_take, sends_send, List.append_nil, List.mem_append,
      List.mem_singleton, waiting_send, waiting_take, hnext, List.tail_cons]
    rcases h.sent c hc with hsent | hwaits
    · exact .inl (.inl hsent)
    · rw [hnext, List.tail_cons] at hwaits
      rcases List.mem_cons.1 hwaits with rfl | hrest
      · exact .inl (.inr rfl)
      · exact .inr hrest
  taken pre c post hacts := by
    rcases List.eq_nil_or_concat post with rfl | ⟨post, last, rfl⟩
    · simpa using (List.append_inj' hacts rfl).2
    · have hassoc : acts ++ [.take a] ++ [.send b] = (pre ++ .take c :: post) ++ [last] := by
        simpa using hacts
      refine h.taken_append (fun _ hact => ?_) pre c post (List.append_inj' hassoc rfl).1
      cases hact
      exact h.front hlegal (by simp [hnext])

/-- Before an element is sent, everything that was put before it was sent. -/
theorem sent_before (h : Prompt acts) (hlegal : Legal acts) {pre post : List (Action α)}
    (hacts : acts = pre ++ .send b :: post) (horder : [a, b].Sublist (puts acts)) :
    a ∈ sends pre := by
  have hpre : Legal pre := (hacts ▸ hlegal).of_append
  obtain ⟨rest, hrest⟩ := List.head?_eq_some_iff.1 (hacts ▸ hlegal).head
  have hputs : puts acts = takes pre ++ b :: (rest ++ puts (.send b :: post)) := by
    rw [hacts, puts_append, hpre.puts_eq, hrest]
    simp
  -- `b` is put once, so what was put before it was taken
  have htaken : a ∈ takes pre := by
    have hnodup := hlegal.nodup
    rw [hputs] at horder hnodup
    obtain ⟨old, new, hsplit, hold, hnew⟩ := List.sublist_append_iff.1 horder
    cases old with
    | nil =>
      rw [List.nil_append] at hsplit
      subst hsplit
      have hb : b ∈ rest ++ puts (.send b :: post) := by
        cases hnew with
        | cons _ h => exact h.subset (by simp)
        | cons_cons _ h => exact h.subset (by simp)
      exact absurd hb (List.nodup_cons.1 (List.nodup_append.1 hnodup).2.1).1
    | cons c old =>
      obtain rfl : a = c := (List.cons.inj hsplit).1
      exact hold.subset (by simp)
  obtain ⟨pre₁, pre₂, rfl⟩ := List.append_of_mem (mem_takes.1 htaken)
  have hsent := h.taken pre₁ a (pre₂ ++ .send b :: post) (by simp [hacts])
  rw [sends_append]
  exact List.mem_append_left _ hsent

end Prompt

end FlightQueue
