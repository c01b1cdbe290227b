import WebTransport.Stream.OnCanRead

/-! The copy loop of `ClientStreamVisitor::OnCanRead` pass by pass. What has been copied,
what is readable and the extra space always make up the buffer, so a copy has room for
the whole region and the exit for a full buffer is not taken. -/
namespace WebTransport.Stream

open Loop

namespace Copy

/-- The buffer was sized once, before the first copy. -/
def Roomy (s : Copy) : Prop := s.totalBytesRead + s.stream.readableBytes + 4096 = s.buffer.length

/-- A region that is peeked fits behind what has been copied. -/
theorem Roomy.room {s : Copy} (roomy : s.Roomy) (some : s.stream.peekNextReadableRegion.peekedData ≠ []) :
    min (s.buffer.length - s.totalBytesRead) s.stream.peekNextReadableRegion.peekedData.length =
      s.stream.peekNextReadableRegion.peekedData.length := by
  obtain ⟨⟨regions, fin⟩, buffer, total⟩ := s
  cases regions with
  | nil => exact absurd rfl some
  | cons r rest =>
    have readable : (bytesOf (r :: rest)).length = r.bytes.length + (bytesOf rest).length := by simp
    simp only [Roomy, WebTransportStream.readableBytes, WebTransportStream.bytes, readable] at roomy
    change min (buffer.length - total) r.bytes.length = r.bytes.length
    omega

/-- A pass succeeds, and where it goes on the buffer has kept its size. -/
theorem Roomy.pass {s : Copy} (roomy : s.Roomy) :
    ∃ pass, copyPass s = .ok pass ∧ ∀ next, pass = .again next → next.Roomy := by
  obtain ⟨⟨regions, fin⟩, buffer, total⟩ := s
  cases regions with
  | nil => exact ⟨_, rfl, fun next again => nomatch again⟩
  | cons r rest =>
    have readable : (bytesOf (r :: rest)).length = r.bytes.length + (bytesOf rest).length := by simp
    simp only [Roomy, WebTransportStream.readableBytes, WebTransportStream.bytes, readable] at roomy
    have split : buffer.take total ++ buffer.drop total = buffer := List.take_append_drop total buffer
    have written : (buffer.take total).length = total := by rw [List.length_take]; omega
    have space : r.bytes.length < (buffer.drop total).length := by rw [List.length_drop]; omega
    have copied := copyPass_region r rest fin (buffer.take total) (buffer.drop total) space
    rw [split, written] at copied
    refine ⟨_, copied, fun next again => ?_⟩
    split at again
    · cases again
    · obtain rfl := Pass.again.inj again
      simp only [Roomy, WebTransportStream.readableBytes, WebTransportStream.bytes, List.length_append,
        List.length_drop, written]
      omega

theorem Roomy.reached {s : Copy} (stream : WebTransportStream)
    (reached : Reached copyPass ⟨stream, List.replicate (stream.readableBytes + 4096) 0, 0⟩ s) : s.Roomy := by
  apply reached.invariant Roomy
  · intro s next roomy again
    obtain ⟨pass, run, keeps⟩ := roomy.pass
    exact keeps next (Except.ok.inj (run.symm.trans again))
  · simp [Roomy]

end Copy

variable {App : Type}

/-- One notification with a callback: it ends with nothing readable and the FIN consumed, and
makes one call with everything in stream order, or with nothing for the FIN alone, or none. At
every pass of its loop a region that is peeked is copied whole, inside the buffer. -/
theorem clientOnCanRead_drains (stream : WebTransportStream) (callback : App) :
    (⟨stream, some callback⟩ : Endpoint App).clientOnCanRead = .ok (⟨⟨[], false⟩, some callback⟩,
        if stream.regions ≠ [] then some (callback, stream.regions.flatMap Region.bytes)
        else if stream.fin then some (callback, []) else none) ∧
      ∀ s, Reached copyPass ⟨stream, List.replicate (stream.readableBytes + 4096) 0, 0⟩ s →
        (∃ pass, copyPass s = .ok pass) ∧
        (s.stream.peekNextReadableRegion.peekedData ≠ [] →
          0 < min (s.buffer.length - s.totalBytesRead) s.stream.peekNextReadableRegion.peekedData.length ∧
          s.totalBytesRead + s.stream.peekNextReadableRegion.peekedData.length ≤ s.buffer.length) := by
  constructor
  · rw [Endpoint.clientOnCanRead_eq]
    obtain ⟨regions, fin⟩ := stream
    cases regions with
    | nil => cases fin <;> rfl
    | cons r rest =>
      have unread : (⟨r :: rest, fin⟩ : WebTransportStream).bytes ≠ [] := by
        simp [WebTransportStream.bytes, r.nonempty]
      rw [Endpoint.reading_unread unread]
      rfl
  · intro s reached
    have roomy := Copy.Roomy.reached stream reached
    obtain ⟨pass, run, -⟩ := roomy.pass
    refine ⟨⟨pass, run⟩, fun some => ?_⟩
    have whole := roomy.room some
    have positive := List.length_pos_iff.mpr some
    have inside : s.totalBytesRead ≤ s.buffer.length := by
      rw [Copy.Roomy] at roomy
      omega
    omega

end WebTransport.Stream
