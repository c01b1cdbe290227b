import WebTransport.Theory.Ownership
import WebTransport.Verify.Policy

/-! What a verification holds. Each part of `VerifyCertChain` has a specification by the
handles before and after it; the parts that return early give back everything themselves,
so that on every path all that was obtained is freed once. -/
namespace WebTransport.Verify

open Ownership Discipline

variable {Pointer : Object → Type}

abbrev Handle (Pointer : Object → Type) : Type := (object : Object) × Pointer object

def handles {object : Object} (pointer : Option (Pointer object)) : List (Handle Pointer) :=
  pointer.toList.map fun p => ⟨object, p⟩

/-- What the calls of BoringSSL do with the pointers they are given and give. A context keeps
pointers to what it is initialized with, but does not own it. -/
def discipline : Discipline (@Answer Pointer) (Handle Pointer) where
  uses
    | .pemReadBioX509 bio => [⟨.bio, bio⟩]
    | .x509Cmp first second => [⟨.x509, first⟩, ⟨.x509, second⟩]
    | .x509CheckHost cert .. => [⟨.x509, cert⟩]
    | .x509StoreLoadLocations store .. | .x509StoreSetDefaultPaths store => [⟨.store, store⟩]
    | .x509StoreCtxInit ctx store leaf untrusted =>
      [⟨.storeCtx, ctx⟩, ⟨.store, store⟩, ⟨.x509, leaf⟩] ++ handles untrusted
    | .x509VerifyCert ctx | .x509StoreCtxGetError ctx => [⟨.storeCtx, ctx⟩]
    | .skX509Push stack cert => handles stack ++ [⟨.x509, cert⟩]
    | _ => []
  releases
    | .bioFree bio => [⟨.bio, bio⟩]
    | .x509Free cert => [⟨.x509, cert⟩]
    | .x509StoreFree store => [⟨.store, store⟩]
    | .x509StoreCtxFree ctx => [⟨.storeCtx, ctx⟩]
    | .skX509Free stack => [⟨.stack, stack⟩]
    | _ => []
  acquires
    | .bioNewMemBuf .., bio => handles bio
    | .pemReadBioX509 _, cert | .d2iX509 .., cert => handles cert
    | .x509StoreNew, store => handles store
    | .x509StoreCtxNew, ctx => handles ctx
    | .skX509NewNull, stack => handles stack
    | _, _ => []

def held {object : Object} (pointer : Option (Pointer object)) : Multiset (Handle Pointer) := handles pointer

def certs (chain : List (Pointer .x509)) : Multiset (Handle Pointer) := chain.map fun cert => (⟨.x509, cert⟩ : Handle Pointer)

theorem mem_held {object : Object} {pointer : Option (Pointer object)} {handle : Handle Pointer} :
    handle ∈ held pointer ↔ handle ∈ handles pointer := Iff.rfl

@[simp] theorem mem_handles_some {object : Object} {pointer : Pointer object} {handle : Handle Pointer} :
    handle ∈ handles (some pointer) ↔ handle = ⟨object, pointer⟩ := List.mem_singleton

@[simp] theorem certs_nil : certs ([] : List (Pointer .x509)) = 0 := rfl

@[simp] theorem certs_cons (cert : Pointer .x509) (rest : List (Pointer .x509)) :
    certs (cert :: rest) = held (some cert) + certs rest := rfl

@[simp] theorem certs_append (first second : List (Pointer .x509)) :
    certs (first ++ second) = certs first + certs second := by
  simp [certs]

/-- The buffer is freed whether or not a certificate was read from it. -/
theorem loadCertificate_manages (certStr : Bytes) :
    discipline.Manages 0 (loadCertificate certStr) (fun cert : Option (Pointer .x509) => held cert) := by
  unfold loadCertificate
  split
  · apply Manages.seq (Manages.acquire rfl rfl)
    rintro (_ | bio)
    · exact Manages.pure rfl
    · dsimp only
      apply Manages.seq (Manages.ask (by simp [discipline, handles]) rfl)
      intro cert
      apply Manages.bind (held cert) (Manages.release rfl fun _ => rfl) rfl
      exact fun _ => Manages.pure (zero_add _)
  · exact Manages.acquire rfl rfl

theorem loadFile_manages (filename : Bytes) :
    (discipline : Discipline (@Answer Pointer) _).Manages 0 (loadFile filename) (fun _ => 0) := by
  apply Manages.seq (Manages.use (by simp [discipline]) rfl fun _ => rfl)
  rintro (_ | _)
  · exact Manages.pure rfl
  · apply Manages.seq (Manages.use (by simp [discipline]) rfl fun _ => rfl)
    exact fun _ => Manages.pure rfl

theorem freeAll_manages (chain : List (Pointer .x509)) :
    discipline.Manages (certs chain) (freeAll chain) (fun _ => 0) := by
  induction chain with
  | nil => exact Manages.pure rfl
  | cons cert rest ih =>
    apply Manages.bind (certs rest) (Manages.release rfl fun _ => rfl) rfl
    exact fun _ => ih.of_eq (zero_add _)

/-- A certificate that does not parse costs those before it. -/
theorem loadChain_manages (strings : List Bytes) (x509Chain : List (Pointer .x509)) :
    discipline.Manages (certs x509Chain) (loadChain strings x509Chain) (fun chain => certs (chain.getD [])) := by
  induction strings generalizing x509Chain with
  | nil => exact Manages.pure rfl
  | cons certStr rest ih =>
    apply Manages.bind (certs x509Chain) (loadCertificate_manages certStr) (zero_add _).symm
    rintro (_ | cert)
    · apply Manages.seq ((freeAll_manages x509Chain).of_eq (zero_add _))
      exact fun _ => Manages.pure rfl
    · exact (ih (x509Chain ++ [cert])).of_eq (by simp [add_comm])

/-- The pinned certificate is freed here, the chain is not. -/
theorem verifyPinned_manages (publicKeyFile : Bytes) (chain : List (Pointer .x509)) :
    discipline.Manages (certs chain) (verifyPinned publicKeyFile chain) (fun _ => certs chain) := by
  match chain with
  | [] => exact Manages.pure rfl
  | leaf :: other :: rest => exact Manages.pure rfl
  | [leaf] =>
    apply Manages.bind (certs [leaf]) (loadFile_manages publicKeyFile) (zero_add _).symm
    rintro (_ | pinnedCertData)
    · exact Manages.pure (zero_add _)
    · dsimp only
      apply Manages.bind (certs [leaf]) (loadCertificate_manages pinnedCertData) rfl
      rintro (_ | pinnedCert)
      · exact Manages.pure (zero_add _)
      · dsimp only
        apply Manages.seq (Manages.use (by simp [discipline, certs, held, handles]) rfl fun _ => rfl)
        intro order
        apply Manages.bind (certs [leaf]) (Manages.release rfl fun _ => rfl) rfl
        exact fun _ => Manages.pure (zero_add _)

theorem loadAnchors_manages (verifier : BoringSSLProofVerifier) (store : Pointer .store) :
    discipline.Manages (held (some store)) (loadAnchors verifier store) (fun _ => held (some store)) := by
  unfold loadAnchors
  split <;> exact Manages.use (by simp [discipline, held, handles]) rfl fun _ => rfl

/-- The stack takes no reference: pushing leaves everything as it was, also on a null stack. -/
theorem pushAll_manages (stack : Option (Pointer .stack)) (rest : List (Pointer .x509)) :
    discipline.Manages (held stack + certs rest) (pushAll stack rest) (fun _ => held stack + certs rest) := by
  have all (members : Multiset (Handle Pointer)) (pushed : List (Pointer .x509))
      (inside : ∀ cert ∈ pushed, ⟨.x509, cert⟩ ∈ members) :
      discipline.Manages (held stack + members) (pushAll stack pushed) (fun _ => held stack + members) := by
    induction pushed with
    | nil => exact Manages.pure rfl
    | cons cert pushed ih =>
      obtain ⟨now, later⟩ := List.forall_mem_cons.mp inside
      apply Manages.seq (Manages.use ?_ rfl fun _ => rfl)
      · exact fun _ => ih later
      · intro handle used
        rcases List.mem_append.mp used with used | used
        · exact Multiset.mem_add.mpr (.inl used)
        · obtain rfl := List.mem_singleton.mp used
          exact Multiset.mem_add.mpr (.inr now)
  exact all (certs rest) rest fun cert member => List.mem_map_of_mem member

theorem stackIntermediates_manages (rest : List (Pointer .x509)) :
    discipline.Manages (certs rest) (stackIntermediates rest) (fun untrusted => held untrusted + certs rest) := by
  unfold stackIntermediates
  split
  · exact Manages.pure (zero_add _).symm
  · apply Manages.bind (certs rest) (Manages.acquire rfl rfl) (zero_add _).symm
    intro intermediates
    apply Manages.seq (pushAll_manages intermediates rest)
    exact fun _ => Manages.pure rfl

theorem freeStack_manages (untrusted : Option (Pointer .stack)) :
    discipline.Manages (held untrusted) (freeStack untrusted) (fun _ => 0) := by
  cases untrusted with
  | none => exact Manages.pure rfl
  | some untrusted =>
    change discipline.Manages _ (call (.skX509Free untrusted)) _
    exact Manages.release rfl fun _ => rfl

theorem checkPeer_manages (ctx : Pointer .storeCtx) (leaf : Pointer .x509) (hostname : Bytes) :
    discipline.Manages (held (some ctx) + held (some leaf)) (checkPeer ctx leaf hostname)
      (fun _ => held (some ctx) + held (some leaf)) := by
  apply Manages.seq (Manages.use (by simp [discipline, held, handles]) rfl fun _ => rfl)
  intro verified
  split
  · apply Manages.seq (Manages.use (by simp [discipline, held, handles]) rfl fun _ => rfl)
    exact fun _ => Manages.pure rfl
  · apply Manages.seq (Manages.use (by simp [discipline, held, handles]) rfl fun _ => rfl)
    exact fun _ => Manages.pure rfl

theorem releaseContext_manages (ctx : Pointer .storeCtx) (store : Pointer .store)
    (untrusted : Option (Pointer .stack)) :
    discipline.Manages (held (some ctx) + (held (some store) + held untrusted)) (releaseContext ctx store untrusted)
      (fun _ => 0) := by
  apply Manages.bind (held (some store) + held untrusted) (Manages.release rfl fun _ => rfl) rfl
  intro _
  apply Manages.bind (held untrusted) (Manages.release rfl fun _ => rfl) (zero_add _)
  exact fun _ => (freeStack_manages untrusted).of_eq (zero_add _)

/-- Both ways out release the context, the store and the stack; a failed initialization the chain too. -/
theorem verifyInContext_manages (ctx : Pointer .storeCtx) (store : Pointer .store) (hostname : Bytes)
    (leaf : Pointer .x509) (rest : List (Pointer .x509)) :
    discipline.Manages (held (some ctx) + (held (some store) + certs (leaf :: rest)))
      (verifyInContext ctx store hostname leaf rest) (fun valid => valid.elim 0 fun _ => certs (leaf :: rest)) := by
  unfold verifyInContext
  apply Manages.bind (held (some ctx) + (held (some store) + held (some leaf))) (stackIntermediates_manages rest)
  · rw [certs_cons]
    abel
  intro untrusted
  apply Manages.seq (Manages.use ?_ rfl fun _ => rfl)
  · intro started
    have context : held untrusted + certs rest + (held (some ctx) + (held (some store) + held (some leaf))) =
        held (some ctx) + (held (some store) + held untrusted) + certs (leaf :: rest) := by
      rw [certs_cons]
      abel
    split
    · apply Manages.bind (certs (leaf :: rest)) (releaseContext_manages ctx store untrusted) context
      intro _
      apply Manages.seq ((freeAll_manages (leaf :: rest)).of_eq (zero_add _))
      exact fun _ => Manages.pure rfl
    · apply Manages.bind (held (some store) + held untrusted + certs rest) (checkPeer_manages ctx leaf hostname)
      · abel
      intro valid
      apply Manages.bind (certs (leaf :: rest)) (releaseContext_manages ctx store untrusted)
      · rw [certs_cons]
        abel
      exact fun _ => Manages.pure (zero_add _)
  · intro handle used
    simp only [discipline, List.mem_append, List.mem_cons, List.not_mem_nil, or_false] at used
    simp only [Multiset.mem_add, mem_held, mem_handles_some]
    tauto

/-- The clean-up of the returns before there is a context. -/
theorem abandon_manages (store : Pointer .store) (chain : List (Pointer .x509)) {kept : Bool → Multiset (Handle Pointer)} :
    discipline.Manages (held (some store) + certs chain)
      (call (.x509StoreFree store) >>= fun _ => freeAll chain >>= fun _ => pure none)
      (fun valid => valid.elim 0 kept) := by
  apply Manages.bind (certs chain) (Manages.release rfl fun _ => rfl) rfl
  intro _
  apply Manages.seq ((freeAll_manages chain).of_eq (zero_add _))
  exact fun _ => Manages.pure rfl

/-- A return with `none` has freed the chain. -/
theorem verifyAuthorities_manages (verifier : BoringSSLProofVerifier) (hostname : Bytes) (leaf : Pointer .x509)
    (rest : List (Pointer .x509)) :
    discipline.Manages (certs (leaf :: rest)) (verifyAuthorities verifier hostname leaf rest)
      (fun valid => valid.elim 0 fun _ => certs (leaf :: rest)) := by
  unfold verifyAuthorities
  apply Manages.bind (certs (leaf :: rest)) (Manages.acquire rfl rfl) (zero_add _).symm
  rintro (_ | store)
  · apply Manages.seq ((freeAll_manages (leaf :: rest)).of_eq (zero_add _))
    exact fun _ => Manages.pure rfl
  dsimp only
  apply Manages.bind (certs (leaf :: rest)) (loadAnchors_manages verifier store) rfl
  intro loaded
  split
  · exact abandon_manages store (leaf :: rest)
  apply Manages.bind (held (some store) + certs (leaf :: rest)) (Manages.acquire rfl rfl) (zero_add _).symm
  rintro (_ | ctx)
  · exact (abandon_manages store (leaf :: rest)).of_eq (zero_add _)
  · exact verifyInContext_manages ctx store hostname leaf rest

theorem verifyChain_manages (verifier : BoringSSLProofVerifier) (hostname : Bytes) (chain : List (Pointer .x509)) :
    discipline.Manages (certs chain) (verifyChain verifier hostname chain)
      (fun valid => valid.elim 0 fun _ => certs chain) := by
  cases chain with
  | nil => exact Manages.pure rfl
  | cons leaf rest =>
    rw [verifyChain]
    split
    · apply Manages.seq (verifyPinned_manages verifier.publicKeyFile (leaf :: rest))
      exact fun _ => Manages.pure rfl
    · exact verifyAuthorities_manages verifier hostname leaf rest

theorem verifyCertChain_manages (verifier : BoringSSLProofVerifier) (hostname : Bytes) (strings : List Bytes) :
    (discipline : Discipline (@Answer Pointer) _).Manages 0 (verifyCertChain verifier hostname strings)
      (fun _ => 0) := by
  unfold verifyCertChain
  split
  · exact Manages.pure rfl
  apply Manages.seq (loadChain_manages strings [])
  rintro (_ | x509Chain)
  · exact Manages.pure rfl
  dsimp only
  apply Manages.seq (verifyChain_manages verifier hostname x509Chain)
  rintro (_ | valid)
  · exact Manages.pure rfl
  apply Manages.seq (freeAll_manages x509Chain)
  exact fun _ => Manages.pure rfl

/-- Whatever the certificates are and whatever each library call answers: every handle is
released as often as it was obtained, and at every call the handles that it uses or releases
have been obtained more often than released. -/
theorem verifyCertChain_releases [∀ object, DecidableEq (Pointer object)] (verifier : BoringSSLProofVerifier)
    (hostname : Bytes) (strings : List Bytes) (log : List (Call Pointer)) (result : QuicAsyncStatus)
    (yields : (verifyCertChain verifier hostname strings).Yields log result) :
    (∀ handle, (discipline.released log).count handle = (discipline.acquired log).count handle) ∧
      ∀ before call after, log = before ++ call :: after → ∀ handle ∈ discipline.touches call.1,
        (discipline.released before).count handle < (discipline.acquired before).count handle := by
  have runs := verifyCertChain_manages verifier hostname strings log result yields
  refine ⟨runs.count_eq, ?_⟩
  rintro before call after rfl handle member
  exact runs.count_lt member

/-- A library that uses one pointer for both certificates of a chain. -/
theorem verifyCertChain_releases_granting : ∃ log,
    (verifyCertChain .default [104] [[48, 1], [48, 2]]).Yields (log : List (Call fun _ => Nat)) .success ∧
      (discipline.acquired log).count ⟨.x509, 1⟩ = 2 ∧ (discipline.released log).count ⟨.x509, 1⟩ = 2 := by
  have run : (verifyCertChain .default [104] [[48, 1], [48, 2]]).run granting [] =
      (.success, ((verifyCertChain .default [104] [[48, 1], [48, 2]]).run granting []).2) :=
    Prod.ext (by decide) rfl
  have yields := (Calls.Program.run_iff.mp run).1
  have twice : (discipline.acquired ((verifyCertChain .default [104] [[48, 1], [48, 2]]).run granting []).2).count
      (⟨.x509, 1⟩ : Handle fun _ => Nat) = 2 := by decide
  exact ⟨_, yields, twice, ((verifyCertChain_releases _ _ _ _ _ yields).1 _).trans twice⟩

end WebTransport.Verify
