import Dlep.Lib.BigEndian
import Dlep.Lib.ByteReader
import Dlep.Basic
import Dlep.Serialize
import Dlep.Lib.Bimap
import Dlep.Lib.OrderedMap
import Dlep.ProtocolConfig
import Dlep.Rfc8175
import Dlep.DataItem
import Dlep.DataItem.RoundTrip
import Dlep.ProtocolMessage
import Dlep.ProtocolMessage.Build
import Dlep.ProtocolMessage.Grammar
import Dlep.Lib.Calls
import Dlep.InfoBase
import Dlep.Peer
import Dlep.Peer.Handlers
import Dlep.Peer.Moves
import Dlep.Peer.Received
import Dlep.Peer.Reach
import Dlep.Lib.Runs
import Dlep.Peer.Run
import Dlep.Peer.Session
import Dlep.Lib.FlightQueue
import Dlep.Peer.Queues
import Dlep.Peer.Metrics
import Dlep.Peer.Closed
import Dlep.Peer.InFlight
import Dlep.Lib.Framing
import Dlep.Peer.Receive
import Dlep.DataItem.Wire
import Dlep.Lib.Ownership
import Dlep.Peer.Addresses
import Dlep.Peer.OneOwner
import Dlep.Peer.Termination
import Dlep.DestAdvert
import Dlep.DestAdvert.Declared
import Dlep.DestAdvert.Purge
import Dlep.Node.Announce
import Dlep.Node.Offers
import Dlep.Node.Tracked
import Dlep.Peer.CallOrder
import Dlep.Peer.Extensions
import Dlep.Peer.Handshake
import Dlep.Peer.Remembered
import Dlep.ConfigLoader
import Dlep.ConfigLoader.Consistent
import Dlep.ConfigLoader.Responses
import Dlep.DestAdvert.Metrics
import Dlep.InfoBase.Unchanged
import Dlep.Node.SessionData
import Dlep.Node.Unencodable
import Dlep.Peer.AnyOrder
import Dlep.Peer.Declined
import Dlep.Peer.Refused
import Dlep.Peer.Retransmits
import Dlep.ConfigLoader.References
import Dlep.DataItem.FromString
import Dlep.DataItem.ParseValue
import Dlep.DataItem.TextRoundTrip
import Dlep.DataItem.ValueText
import Dlep.DestAdvert.History
import Dlep.Peer.Inactivity
import Dlep.Peer.ReceiveLoop
import Dlep.PeerDiscovery
import Dlep.PeerDiscovery.Offer
import Dlep.Serialize.Loops
import Dlep.DataItem.Inside
import Dlep.Lib.Channel
import Dlep.Lib.Replay
import Dlep.Link
import Dlep.Link.Handshake
import Dlep.Peer.Replica
import Dlep.Link.Provenance
import Dlep.DestAdvert.Heard
import Dlep.DestAdvert.Network
import Dlep.Node.Peers
import Dlep.Node.Queries
import Dlep.PeerDiscovery.Exchange
import Dlep.PeerDiscovery.Network
import Dlep.Node.Given
