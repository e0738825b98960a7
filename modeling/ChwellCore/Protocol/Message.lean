import ChwellCore.Core.Bytes

/-!
# Protocol messages

`protocol/message.h` describes one frame as `| cmd (2 bytes) | len (2 bytes) | body (len bytes) |`,
both integers in network order.  `serialize` writes a frame; it narrows the body's length to 16
bits, so a body of 65536 bytes or more is announced with the wrong length, and only
`netToHost16_serialize_len` needs to know.  `deserialize` reads one frame from the front of a
buffer and ignores what follows.
-/

set_option autoImplicit false

namespace ChwellCore
namespace Protocol

/-- `protocol::Message`. -/
structure Message where
  cmd : UInt16
  body : Bytes
deriving DecidableEq, Repr

/-- `serialize`: the bytes of one frame. -/
def serialize (msg : Message) : Bytes :=
  hostToNet16 msg.cmd ++ (hostToNet16 (UInt16.ofNat msg.body.length) ++ msg.body)

/-- `deserialize`: the message at the front of `data`, if it is complete. -/
def deserialize (data : Bytes) : Option Message :=
  if data.length < 4 then none
  else
    let bodyLen := (netToHost16 data 2).toNat
    if data.length < 4 + bodyLen then none
    else some ⟨netToHost16 data 0, (data.drop 4).take bodyLen⟩

@[simp] theorem length_serialize (msg : Message) :
    (serialize msg).length = 4 + msg.body.length := by
  simp only [serialize, List.length_append, length_hostToNet16]
  omega

theorem netToHost16_serialize_cmd (msg : Message) : netToHost16 (serialize msg) 0 = msg.cmd :=
  netToHost16_hostToNet16 msg.cmd _

/-- The announced length is the length of the body, as long as it fits in 16 bits. -/
theorem netToHost16_serialize_len {msg : Message} (h : msg.body.length ≤ 65535) :
    (netToHost16 (serialize msg) 2).toNat = msg.body.length := by
  have hdrop : (serialize msg).drop 2 =
      hostToNet16 (UInt16.ofNat msg.body.length) ++ msg.body := rfl
  have hread := netToHost16_drop (serialize msg) 2 0
  rw [hdrop, netToHost16_hostToNet16] at hread
  rw [← hread, UInt16.toNat_ofNat']
  omega

end Protocol
end ChwellCore
