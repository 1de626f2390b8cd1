import Dlep.Lib.Runs

/-!
# Copies that are kept by replaying a log

A machine has data, and writes a log that only grows. Whoever reads the log and takes every entry
for a change of a copy follows the machine, if a step changes the data as its entries say. What an
entry does to the copy may depend on the input of the step, and an input may change the copy by
itself.
-/

namespace Replay

open Runs

/-- What is needed to follow a machine: its data, its log, and what the copy makes of the inputs
and of the entries. -/
structure Reader (σ ι δ ε : Type) where
  data : σ → δ
  log : σ → List ε
  own : ι → δ → δ
  note : ι → δ → ε → δ

section

variable {σ ι δ ε : Type} (r : Reader σ ι δ ε) {i : ι} {s t u : σ}

/-- What is new in the log is what has become of the data, and all of it is expected. -/
def Replays (A : ε → Prop) (i : ι) (s t : σ) : Prop :=
  ∃ events, r.log t = r.log s ++ events ∧ r.data t = events.foldl (r.note i) (r.data s) ∧
    ∀ e ∈ events, A e

variable {r} {A : ε → Prop}

/-- A machine that does nothing is followed by doing nothing. -/
theorem Replays.refl (s : σ) : Replays r A i s s := ⟨[], (List.append_nil _).symm, rfl, by simp⟩

/-- What is followed in two stretches is followed in one. -/
theorem Replays.trans (h : Replays r A i s t) (h' : Replays r A i t u) : Replays r A i s u := by
  obtain ⟨events, hlog, hdata, hall⟩ := h
  obtain ⟨events', hlog', hdata', hall'⟩ := h'
  refine ⟨events ++ events', ?_, ?_, List.forall_mem_append.2 ⟨hall, hall'⟩⟩
  · rw [hlog', hlog, List.append_assoc]
  · rw [hdata', hdata, List.foldl_append]

/-- Entries that the copy ignores, while the data stays as it is. -/
theorem Replays.ignored {events : List ε} (hlog : r.log t = r.log s ++ events)
    (hdata : r.data t = r.data s) (hnote : ∀ e ∈ events, A e ∧ ∀ d, r.note i d e = d) :
    Replays r A i s t := by
  refine ⟨events, hlog, ?_, fun e he => (hnote e he).1⟩
  rw [hdata]
  generalize r.data s = d
  clear hlog hdata
  induction events generalizing d with
  | nil => rfl
  | cons e events ih =>
    obtain ⟨he, hevents⟩ := List.forall_mem_cons.1 hnote
    rw [List.foldl_cons, he.2]
    exact ih hevents d

/-- One entry for one change. -/
theorem Replays.single {e : ε} (hlog : r.log t = r.log s ++ [e])
    (hdata : r.data t = r.note i (r.data s) e) (he : A e) : Replays r A i s t :=
  ⟨[e], hlog, hdata, List.forall_mem_singleton.2 he⟩

variable (r)

/-- The machine, and the copy beside it. -/
def watch (step : σ → ι → σ) (w : σ × δ) (i : ι) : σ × δ :=
  (step w.1 i, ((r.log (step w.1 i)).drop (r.log w.1).length).foldl (r.note i) (r.own i w.2))

variable {r} {step : σ → ι → σ}

/-- Whoever watches does not disturb. -/
theorem run_watch_fst (w : σ × δ) (is : List ι) :
    (run (watch r step) w is).1 = run step w.1 is := by
  induction is generalizing w with
  | nil => rfl
  | cons i is ih => exact ih (watch r step w i)

/-- A step that follows its entries, from where the input has left the copy, keeps the copy equal.
-/
theorem watch_snd {d : δ} {i : ι} {events : List ε} (hd : d = r.data s)
    (hlog : r.log (step s i) = r.log s ++ events)
    (hdata : r.data (step s i) = events.foldl (r.note i) (r.own i (r.data s))) :
    (watch r step (s, d) i).2 = r.data (step s i) := by
  rw [watch, hlog, List.drop_left, hd, hdata]

/-- If every step follows its entries, the copy is the data after every run. -/
theorem run_watch_snd {P : σ → ι → Prop} {I : σ → Prop}
    (hstep : ∀ s i, I s → P s i → I (step s i) ∧
      ∃ events, r.log (step s i) = r.log s ++ events ∧
        r.data (step s i) = events.foldl (r.note i) (r.own i (r.data s)))
    {is : List ι} (hrun : Along step P s is) (hs : I s) :
    (run (watch r step) (s, r.data s) is).2 = r.data (run step s is) := by
  suffices h : ∀ d, d = r.data s → (run (watch r step) (s, d) is).2 = r.data (run step s is) from
    h _ rfl
  induction is generalizing s with
  | nil => exact fun d hd => hd
  | cons i is ih =>
    intro d hd
    obtain ⟨hnext, events, hlog, hdata⟩ := hstep s i hs hrun.1
    exact ih hrun.2 hnext _ (watch_snd hd hlog hdata)

end

end Replay
