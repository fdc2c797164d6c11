import CcCvStore.Server.Requests

/-!
# The read callback

`server.c` allocates a read buffer, lets libuv fill its beginning, hands the
whole buffer to the router and writes back the string the router returned.
-/

namespace CcCvStore.ReadCallback

open CcCvStore.Effect
open CcCvStore.CInteger
open CcCvStore.CString
open CcCvStore.Message
open CcCvStore.Router
open CcCvStore.Requests

/-- A client connection and the session behind it. -/
structure Peer where
  session : Session
  sent : List (List Byte)
  closed : Bool

/-- The buffer `on_read_cb` gets: `alloc_buffer` allocates it, libuv writes
`received` at its start, and `stale` is what `malloc` left in the rest.  Its
`len` is the size of the allocation. -/
def readBuffer (heap : Heap) (received stale : List Byte) : UvBuf :=
  heap.received (received ++ stale)

def onReadCb (env : Env) (nread : Int) (buf : UvBuf) : Exec Fault Peer Unit := do
  if 0 < nread then
    let data ← onPart Peer.session (fun session peer => { peer with session }) (router env buf)
    let bytes ← data.str
    -- `uv_buf_init` takes the length as an `unsigned int`
    let sending := bytes.take (bytes.length % 4294967296)
    modifyState fun peer => { peer with sent := peer.sent ++ [sending] }
  else if nread < 0 then
    modifyState fun peer => { peer with closed := true }
  else
    return ()

variable {env : Env} {nread : Int}

theorem nread_pos {received : List Byte} (hne : received ≠ []) : (0 : Int) < received.length :=
  Int.natCast_pos.mpr (List.length_pos_of_ne_nil hne)

theorem onReadCb_congr (hnread : 0 < nread) {left right : UvBuf}
    (hrouter : router env left = router env right) :
    onReadCb env nread left = onReadCb env nread right := by
  simp only [onReadCb, if_pos hnread, hrouter]

/-- A read that brings bytes runs the router and sends the string it returns. -/
theorem onReadCb_apply (hnread : 0 < nread) (buf : UvBuf) (peer : Peer) :
    onReadCb env nread buf peer =
      match (router env buf peer.session).1 >>= fun data => data.str with
      | .error fault => (.error fault, { peer with session := (router env buf peer.session).2 })
      | .ok bytes => (.ok (),
          { peer with
            session := (router env buf peer.session).2
            sent := peer.sent ++ [bytes.take (bytes.length % 4294967296)] }) := by
  rw [onReadCb, if_pos hnread]
  simp only [bind_apply, onPart_apply]
  cases (router env buf peer.session).1 with
  | error fault => rfl
  | ok data =>
      simp only [liftM_apply, ok_bind]
      cases data.str <;> rfl

/-- The session after a read is the one the router leaves. -/
theorem session_onReadCb (hnread : 0 < nread) (buf : UvBuf) (peer : Peer) :
    (onReadCb env nread buf peer).2.session = (router env buf peer.session).2 := by
  rw [onReadCb_apply hnread]
  cases (router env buf peer.session).1 >>= fun data => data.str <;> rfl

end CcCvStore.ReadCallback
