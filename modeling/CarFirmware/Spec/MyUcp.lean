import CarFirmware.Lib.CArray
import Mathlib.Data.UInt

/-! `my_ucp.c`: the thread that receives datagrams into its static buffer. -/

namespace Car

def ucpRcvBufSize : ℕ := 1500

abbrev UcpRcvBuf := Fin ucpRcvBufSize → UInt8

/-- A successful `ucp_recv(ucp_rcv_buf, sizeof(ucp_rcv_buf), &type)`: it stores these
bytes at the start of the buffer and returns their number. -/
structure Datagram where
  bytes : List UInt8
  nonempty : 0 < bytes.length
  fits : bytes.length ≤ ucpRcvBufSize

/-- One turn of the loop of `ucp_server_rcv_thread`: the buffer and the string handed to
`handle_message`, if any; `none` when the turn leaves the buffer. -/
def ucpServerRcvTurn (buf : UcpRcvBuf) (d : Datagram) :
    Option (UcpRcvBuf × Option (List UInt8)) := do
  let buf ← CArray.memcpy buf 0 d.bytes
  let ret := d.bytes.length
  if 0 < ret then
    let buf ← CArray.store buf ret 0
    let str ← CArray.str buf
    some (buf, some str)
  else
    some (buf, none)

def ucpServerRcvThread : UcpRcvBuf → List Datagram → Option (List (List UInt8))
  | _, [] => some []
  | buf, d :: ds =>
    match ucpServerRcvTurn buf d with
    | none => none
    | some (buf, str) => (ucpServerRcvThread buf ds).map (str.toList ++ ·)

end Car
