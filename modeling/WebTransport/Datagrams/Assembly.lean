import WebTransport.Datagrams.Client
import Mathlib.Data.List.Chain

/-! What the client assembles, in terms of the history of arrivals alone. The open run
is the longest run of consecutive sequence numbers that ends the history and contains no
marker. As long as no head interrupts a run that carries data, the assembly holds exactly
the data of the open run, and only a marker decodes. -/
namespace WebTransport.Datagrams

open Loop

/-- The sequence number follows on that of the run's last packet. -/
def continues (run : List Arrival) (a : Arrival) : Bool :=
  match run.getLast? with
  | some last => a.sequenceNumber == last.sequenceNumber + 1
  | none => false

def kept (run : List Arrival) (a : Arrival) : List Arrival := if continues run a then run else []

def extend (run : List Arrival) (a : Arrival) : List Arrival := kept run a ++ [a]

def openRun (history : List Arrival) : List Arrival :=
  history.foldl (fun run a => if a.marker then [] else extend run a) []

theorem openRun_concat (history : List Arrival) (a : Arrival) :
    openRun (history ++ [a]) = if a.marker then [] else extend (openRun history) a := by
  simp [openRun]

theorem kept_suffix (run : List Arrival) (a : Arrival) : kept run a <:+ run := by
  unfold kept
  split
  · exact List.suffix_rfl
  · exact List.nil_suffix

theorem openRun_suffix (history : List Arrival) : openRun history <:+ history := by
  induction history using List.reverseRecOn with
  | nil => exact List.suffix_rfl
  | append_singleton history a ih =>
    rw [openRun_concat]
    split
    · exact List.nil_suffix
    · obtain ⟨front, whole⟩ := (kept_suffix (openRun history) a).trans ih
      exact ⟨front, by rw [extend, ← List.append_assoc, whole]⟩

theorem extend_suffix (history : List Arrival) (a : Arrival) :
    extend (openRun history) a <:+ history ++ [a] := by
  obtain ⟨front, whole⟩ := (kept_suffix (openRun history) a).trans (openRun_suffix history)
  exact ⟨front, by rw [extend, ← List.append_assoc, whole]⟩

/-- Sequence numbers consecutive modulo 2^16. -/
def Consecutive (run : List Arrival) : Prop :=
  run.IsChain fun a b => b.sequenceNumber = a.sequenceNumber + 1

theorem extend_consecutive (run : List Arrival) (a : Arrival) (consecutive : Consecutive run) :
    Consecutive (extend run a) := by
  unfold extend kept continues
  cases last : run.getLast? with
  | none => simp [Consecutive]
  | some l =>
    simp only [beq_iff_eq]
    split
    · rename_i follows
      refine consecutive.append (List.isChain_singleton a) ?_
      intro x isLast y first
      rw [last] at isLast
      simp only [List.head?_cons, Option.mem_def, Option.some.injEq] at isLast first
      rw [← isLast, ← first]
      exact follows
    · exact List.isChain_singleton a

theorem openRun_consecutive (history : List Arrival) : Consecutive (openRun history) := by
  induction history using List.reverseRecOn with
  | nil => exact List.isChain_nil
  | append_singleton history a ih =>
    rw [openRun_concat]
    split
    · exact List.isChain_nil
    · exact extend_consecutive _ a ih

structure Assembled (past : List Arrival) (c : Client) : Prop where
  last : c.lastSequenceNumber = past.getLast?.map (·.sequenceNumber)
  nonempty : ∀ f ∈ c.currentFramePackets, f.payload ≠ []
  held : c.currentFramePackets.flatMap (·.payload) = (openRun past).flatMap (·.body)

def HeadClean (run : List Arrival) (a : Arrival) : Prop := a.head = true → ∀ q ∈ run, q.body = []

theorem Assembled.empty (assembled : Assembled past c) (none : (openRun past).flatMap (·.body) = []) :
    c.currentFramePackets = [] := by
  rw [← assembled.held, List.flatMap_eq_nil_iff] at none
  exact List.eq_nil_iff_forall_not_mem.mpr fun f member => assembled.nonempty f member (none f member)

/-- After loss detection the assembly holds what the arrival continues; a head finds it empty. -/
theorem detectLoss_kept (assembled : Assembled past c) (a : Arrival) (clean : HeadClean (openRun past) a) :
    (∀ f ∈ (c.detectLoss a).currentFramePackets, f.payload ≠ []) ∧
      (c.detectLoss a).currentFramePackets.flatMap (·.payload) = (kept (openRun past) a).flatMap (·.body) ∧
      (a.head = true → (c.detectLoss a).currentFramePackets = []) := by
  have headEmpty (head : a.head = true) : c.currentFramePackets = [] :=
    assembled.empty (List.flatMap_eq_nil_iff.mpr (clean head))
  have keeps (same : c.detectLoss a = c) (data : (kept (openRun past) a).flatMap (·.body) =
      (openRun past).flatMap (·.body)) :
      (∀ f ∈ (c.detectLoss a).currentFramePackets, f.payload ≠ []) ∧
      (c.detectLoss a).currentFramePackets.flatMap (·.payload) = (kept (openRun past) a).flatMap (·.body) ∧
      (a.head = true → (c.detectLoss a).currentFramePackets = []) := by
    rw [same, data]
    exact ⟨assembled.nonempty, assembled.held, headEmpty⟩
  cases run : (openRun past).getLast? with
  | none =>
    -- nothing is assembled, so it does not matter what loss detection does
    have noRun : openRun past = [] := List.getLast?_eq_none_iff.mp run
    have empty : c.currentFramePackets = [] := assembled.empty (by rw [noRun]; rfl)
    have still : (c.detectLoss a).currentFramePackets = [] := by
      unfold Client.detectLoss
      split
      · simp only
        split
        · split
          · exact empty
          · rfl
        · exact empty
      · exact empty
    simp [still, noRun, kept, continues]
  | some l =>
    have last : c.lastSequenceNumber = some l.sequenceNumber := by
      obtain ⟨front, whole⟩ := openRun_suffix past
      rw [assembled.last, ← whole, List.getLast?_append, run]
      rfl
    by_cases follows : a.sequenceNumber = l.sequenceNumber + 1
    · refine keeps ?_ ?_
      · simp [Client.detectLoss, last, follows]
      · simp [kept, continues, run, follows]
    · have dropped : kept (openRun past) a = [] := by simp [kept, continues, run, follows]
      by_cases head : a.head = true
      · have same : c.detectLoss a = c := by simp [Client.detectLoss, last, head]
        rw [same, dropped, headEmpty head]
        simp
      · have cleared : (c.detectLoss a).currentFramePackets = [] := by
          simp [Client.detectLoss, last, head, follows]
        rw [dropped, cleared]
        simp

theorem keepPayload_adds (c : Client) (a : Arrival) (nonempty : ∀ f ∈ c.currentFramePackets, f.payload ≠ []) :
    (∀ f ∈ (c.keepPayload a).currentFramePackets, f.payload ≠ []) ∧
      (c.keepPayload a).currentFramePackets.flatMap (·.payload) =
        c.currentFramePackets.flatMap (·.payload) ++ a.body ∧
      (c.keepPayload a).lastSequenceNumber = c.lastSequenceNumber := by
  unfold Client.keepPayload
  by_cases data : a.body = []
  · simpa [data] using nonempty
  · simp only [List.length_pos_iff.mpr data, if_true, List.flatMap_append, List.flatMap_singleton, and_true]
    intro f member
    rcases List.mem_append.mp member with old | new
    · exact nonempty f old
    · rw [List.mem_singleton.mp new]
      exact data

/-- One arrival with a clean head: the assembly follows the open run, and only a marker
passes packets to the decoder, those of the run that it ends. -/
theorem onArrival_follows (constructs : EncodedVideoChunk → Bool) (assembled : Assembled past c)
    (a : Arrival) (clean : HeadClean (openRun past) a) :
    Assembled (past ++ [a]) (c.onArrival constructs a).1 ∧ ∃ packets : List FramePacket,
      (∀ f ∈ packets, f.payload ≠ []) ∧
      packets.flatMap (·.payload) = (extend (openRun past) a).flatMap (·.body) ∧
      (c.onArrival constructs a).2 = if a.marker then
        Client.assembleAndDecodeFrame constructs { c with currentFramePackets := packets } else [] := by
  obtain ⟨nonempty, held, headEmpty⟩ := detectLoss_kept assembled a clean
  obtain ⟨d, detected⟩ : ∃ d, { c.detectLoss a with lastSequenceNumber := some a.sequenceNumber } = d :=
    ⟨_, rfl⟩
  have packets : (c.detectLoss a).currentFramePackets = d.currentFramePackets := by rw [← detected]
  have last : d.lastSequenceNumber = some a.sequenceNumber := by rw [← detected]
  have quiet : d.startPartition constructs a = (d, []) := by
    rw [Client.startPartition, if_neg]
    rintro ⟨head, some⟩
    rw [← packets, headEmpty head] at some
    exact absurd some (Nat.lt_irrefl 0)
  rw [packets] at nonempty held
  obtain ⟨nonempty', held', last'⟩ := keepPayload_adds d a nonempty
  rw [held] at held'
  have data : (kept (openRun past) a).flatMap (·.body) ++ a.body =
      (extend (openRun past) a).flatMap (·.body) := by simp [extend]
  have arrive : c.onArrival constructs a = (d.keepPayload a).endFrame constructs a := by
    rw [Client.onArrival, detected]
    simp only [quiet, List.nil_append]
  have latest : ((past ++ [a]).getLast?).map (·.sequenceNumber) = some a.sequenceNumber := by simp
  rw [arrive]
  refine ⟨?_, (d.keepPayload a).currentFramePackets, nonempty', held'.trans data, ?_⟩
  · cases marker : a.marker with
    | true =>
      refine ⟨?_, ?_, ?_⟩
      · simp only [Client.endFrame, marker, if_true]
        rw [latest, last', last]
      · simp [Client.endFrame, marker]
      · simp [Client.endFrame, marker, openRun_concat]
    | false =>
      refine ⟨?_, ?_, ?_⟩
      · simp only [Client.endFrame, marker]
        rw [latest]
        exact last'.trans last
      · simpa [Client.endFrame, marker] using nonempty'
      · simpa [Client.endFrame, marker, openRun_concat] using held'.trans data
  · cases marker : a.marker
    · simp [Client.endFrame, marker]
    · simp [Client.endFrame, marker]
      rfl

theorem mem_assembleAndDecodeFrame {constructs : EncodedVideoChunk → Bool} {c : Client}
    (member : chunk ∈ c.assembleAndDecodeFrame constructs) :
    chunk.data = c.currentFramePackets.flatMap (·.payload) ∧ c.currentFramePackets ≠ [] := by
  unfold Client.assembleAndDecodeFrame at member
  split at member
  · cases member
  · rename_i first rest packets
    simp only at member
    split at member
    · rw [List.mem_singleton.mp member]
      exact ⟨rfl, by simp [packets]⟩
    · cases member

end WebTransport.Datagrams
