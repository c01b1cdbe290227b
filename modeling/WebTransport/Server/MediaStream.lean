import WebTransport.Server.Relay
import WebTransport.H264.Receiver

/-! The H.264 example as a whole: packetizer, datagram server and the client with its file. -/
namespace WebTransport.Server

open Datagrams H264

/-- Datagrams that fit into the buffer lose nothing that the client could read. -/
theorem carried_forwardable (datagrams : List (List UInt8))
    (small : ∀ datagram ∈ datagrams, datagram.length ≤ 65500) :
    (datagrams.filterMap forwardable).filterMap carried? = datagrams.filterMap carried? := by
  rw [List.filterMap_filterMap]
  refine List.filterMap_congr fun datagram member => ?_
  by_cases some : datagram = []
  · subst some
    rfl
  · rw [forwardable_small some (small datagram member)]
    rfl

/-- The second unit arrives first, among the fragments of the other one. -/
def lateUnit : List Relay.Event :=
  [.server (.register ⟨true, false, false⟩), .server (.request (some "/stream")), .server (.onSessionReady 0 [] true),
    .arrive [0x80, 96, 0, 4, 0, 0, 0, 1, 0, 0, 0, 1, 0x41, 0xDD], .arrive [],
    .arrive [0x80, 96, 0, 1, 0, 0, 0, 1, 0, 0, 0, 1, 0x7C, 0x85, 0xAA], .interval 0, .interval 0, .interval 0,
    .arrive [0x80, 96, 0, 2, 0, 0, 0, 1, 0, 0, 0, 1, 0x7C, 0x05, 0xBB], .interval 0,
    .arrive [0x80, 96, 0, 3, 0, 0, 0, 1, 0, 0, 0, 1, 0x7C, 0x45, 0xCC], .interval 0]

end WebTransport.Server
