import WebTransport.Stream.Transport

/-! The two stream readers. `ClientStreamVisitor::OnCanRead` copies region by region and
tests the callback behind the loop; `Server::StreamWrapper::OnCanRead` tests it first. The
callback is the last thing that either of them does, so what the application does in it
comes after the notification. -/
namespace WebTransport.Stream

open Loop

/-- A transport stream with `read_callback_` of `ClientBidirectionalStream`, or `data_cb_` of
`Server::StreamWrapper`; the registered function can be empty. -/
structure Endpoint (App : Type) where
  stream : WebTransportStream := {}
  readCallback : Option App := none
  deriving DecidableEq, Repr

abbrev Call (App : Type) := App × List UInt8

structure Copy where
  stream : WebTransportStream
  buffer : List UInt8
  totalBytesRead : Nat
  deriving DecidableEq, Repr

def copyPass (s : Copy) : Except Fault (Pass Copy (Copy × Bool)) :=
  let pr := s.stream.peekNextReadableRegion
  if pr.peekedData.isEmpty then .ok (.leave (s, false))
  else
    let len := min (s.buffer.length - s.totalBytesRead) pr.peekedData.length
    if len = 0 then .ok (.leave (s, false))
    else do
      let buffer ← store s.buffer s.totalBytesRead (← slice pr.peekedData 0 len)
      let (fin, stream) := s.stream.skipBytes len
      let next : Copy := ⟨stream, buffer, s.totalBytesRead + len⟩
      if fin then .ok (.leave (next, true)) else .ok (.again next)

namespace Endpoint

variable {App : Type}

def onStreamRead (e : Endpoint App) (callback : Option App) : Endpoint App :=
  { e with readCallback := callback }

/-- `if (callback) callback(data)`. -/
def invoke (e : Endpoint App) (data : List UInt8) : Option (Call App) :=
  e.readCallback.map fun callback => (callback, data)

/-- `ClientStreamVisitor::OnCanRead`. -/
def clientOnCanRead (e : Endpoint App) : Except Fault (Endpoint App × Option (Call App)) :=
  let pr := e.stream.peekNextReadableRegion
  if pr.finNext = true ∧ pr.peekedData.isEmpty = true then
    let (fin, stream) := e.stream.skipBytes 0
    .ok ({ e with stream }, if fin then e.invoke [] else none)
  else do
    let buffer := List.replicate (e.stream.readableBytes + 4096) 0
    let (copy, finReceived) ← loop copyPass (e.stream.regions.length + 1) ⟨e.stream, buffer, 0⟩
    let call :=
      if 0 < copy.totalBytesRead then e.invoke (copy.buffer.take copy.totalBytesRead)
      else if finReceived then e.invoke []
      else none
    .ok ({ e with stream := copy.stream }, call)

/-- `Server::StreamWrapper::OnCanRead`. -/
def serverOnCanRead (e : Endpoint App) : Endpoint App × Option (Call App) :=
  match e.readCallback with
  | some callback =>
    let (data, stream) := e.stream.read
    ({ e with stream }, some (callback, data))
  | none => (e, none)

end Endpoint

/-- A pass over a readable region copies and consumes it whole. -/
theorem copyPass_region (r : Region) (rest : List Region) (fin : Bool) (written space : List UInt8)
    (room : r.bytes.length < space.length) :
    copyPass ⟨⟨r :: rest, fin⟩, written ++ space, written.length⟩ =
      .ok (if fin = true ∧ rest = [] then
          .leave (⟨⟨[], false⟩, written ++ r.bytes ++ space.drop r.bytes.length,
            written.length + r.bytes.length⟩, true)
        else .again ⟨⟨rest, fin⟩, written ++ r.bytes ++ space.drop r.bytes.length,
          written.length + r.bytes.length⟩) := by
  have full : min ((written ++ space).length - written.length) r.bytes.length = r.bytes.length := by
    simp
    omega
  have whole : slice r.bytes 0 r.bytes.length = .ok r.bytes := by
    rw [slice_of_le (by omega)]
    simp
  have copied := store_behind written (Nat.le_of_lt room)
  have skipped := WebTransportStream.skip_first r rest
  simp only [copyPass, WebTransportStream.peekNextReadableRegion, List.isEmpty_iff, r.nonempty, if_false,
    full, Nat.ne_of_gt r.length_pos, whole, ok_bind, copied, WebTransportStream.skipBytes, skipped]
  cases rest with
  | nil => cases fin <;> simp
  | cons next rest => cases fin <;> simp

/-- The loop reads everything, from any state with room for it. The induction is on the
regions; a FIN behind no region is not read here. -/
theorem copyLoop (regions : List Region) (fin : Bool) (written space : List UInt8)
    (ends : fin = true → regions ≠ []) (room : (bytesOf regions).length < space.length) :
    ∃ copy, loop copyPass (regions.length + 1) ⟨⟨regions, fin⟩, written ++ space, written.length⟩ =
        .ok (copy, fin) ∧
      copy.stream = ⟨[], false⟩ ∧ copy.totalBytesRead = (written ++ bytesOf regions).length ∧
      copy.buffer.take copy.totalBytesRead = written ++ bytesOf regions := by
  induction regions generalizing written space with
  | nil =>
    have noFin : fin = false := by simpa using ends
    subst noFin
    refine ⟨⟨⟨[], false⟩, written ++ space, written.length⟩, loop_leave rfl, rfl, ?_, ?_⟩ <;> simp
  | cons r rest ih =>
    rw [bytesOf_cons, List.length_append] at room
    have pass := copyPass_region r rest fin written space (by omega)
    by_cases last : fin = true ∧ rest = []
    · rw [if_pos last] at pass
      obtain ⟨rfl, rfl⟩ := last
      refine ⟨_, loop_leave pass, rfl, ?_, ?_⟩
      · simp
      · rw [bytesOf_cons, bytesOf_nil, List.append_nil]
        exact List.take_left' (by simp)
    · rw [if_neg last] at pass
      have length : written.length + r.bytes.length = (written ++ r.bytes).length := by simp
      rw [length] at pass
      obtain ⟨copy, run, drained, total, copied⟩ :=
        ih (written ++ r.bytes) (space.drop r.bytes.length) (fun h empty => last ⟨h, empty⟩)
          (by simp; omega)
      refine ⟨copy, ?_, drained, ?_, ?_⟩
      · rw [List.length_cons, loop_again pass, run]
      · rw [total, List.append_assoc, bytesOf_cons]
      · rw [copied, List.append_assoc, bytesOf_cons]

namespace Endpoint

variable {App : Type}

/-- What a notification passes on: the readable bytes in one piece, or the FIN alone. -/
def reading (e : Endpoint App) : Option (Call App) :=
  if e.stream.bytes = [] then
    if e.stream.fin then e.invoke [] else none
  else e.invoke e.stream.bytes

theorem reading_unread {e : Endpoint App} (unread : e.stream.bytes ≠ []) :
    e.reading = e.invoke e.stream.bytes := if_neg unread

def drained (e : Endpoint App) : Endpoint App :=
  { e with stream := ⟨[], false⟩ }

@[simp] theorem drained_bytes (e : Endpoint App) : e.drained.stream.bytes = [] := rfl

/-- The client consumes everything readable, whether or not there is a callback for it. How
the bytes are laid out in regions plays no part. -/
theorem clientOnCanRead_eq (e : Endpoint App) : e.clientOnCanRead = .ok (e.drained, e.reading) := by
  obtain ⟨⟨regions, fin⟩, callback⟩ := e
  cases regions with
  | nil =>
    cases fin with
    | true => rfl
    | false => rfl
  | cons r rest =>
    obtain ⟨copy, run, drained, total, copied⟩ := copyLoop (r :: rest) fin []
      (List.replicate ((bytesOf (r :: rest)).length + 4096) 0) (by simp) (by simp)
    rw [List.nil_append, List.length_nil] at run
    rw [List.nil_append] at total copied
    have some : 0 < copy.totalBytesRead := by
      rw [total, bytesOf_cons, List.length_append]
      exact Nat.add_pos_left r.length_pos _
    have unread : (⟨r :: rest, fin⟩ : WebTransportStream).bytes ≠ [] := by
      simp [WebTransportStream.bytes, r.nonempty]
    have peeked : ¬ ((⟨r :: rest, fin⟩ : WebTransportStream).peekNextReadableRegion.finNext = true ∧
        (⟨r :: rest, fin⟩ : WebTransportStream).peekNextReadableRegion.peekedData.isEmpty = true) := by
      simp [WebTransportStream.peekNextReadableRegion, r.nonempty]
    refine (if_neg peeked).trans ?_
    simp only [WebTransportStream.readableBytes, WebTransportStream.bytes, run, ok_bind]
    rw [if_pos some, copied, drained, reading_unread unread]
    rfl

/-- The server reads everything too, but only for a callback. -/
theorem serverOnCanRead_eq (e : Endpoint App) : e.serverOnCanRead =
    if e.readCallback.isSome then (e.drained, e.invoke e.stream.bytes) else (e, none) := by
  obtain ⟨stream, callback⟩ := e
  cases callback <;> rfl

end Endpoint

end WebTransport.Stream
