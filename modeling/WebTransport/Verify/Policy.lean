import WebTransport.Verify.CertChain

/-! What it takes to be accepted, said of the library alone: the calls of an accepting
verification with their answers, in order. Releases have no answer and so ask nothing
of the library. -/
namespace WebTransport.Verify

open Calls.Program (yields_pure yields_call yields_bind yields_call_bind)

variable {Pointer : Object → Type}

inductive Loads : Bytes → Pointer .x509 → List (Call Pointer) → Prop where
  | pem {certStr bio cert} (marked : pemMarker <:+: certStr) :
    Loads certStr cert [⟨.bioNewMemBuf certStr (Int32.ofNat certStr.length), some bio⟩,
      ⟨.pemReadBioX509 bio, some cert⟩, ⟨.bioFree bio, ()⟩]
  | der {certStr cert} (unmarked : ¬ pemMarker <:+: certStr) :
    Loads certStr cert [⟨.d2iX509 certStr certStr.length, some cert⟩]

inductive LoadsAll : List Bytes → List (Pointer .x509) → List (Call Pointer) → Prop where
  | nil : LoadsAll [] [] []
  | cons {certStr cert rest chain now later} (first : Loads certStr cert now) (others : LoadsAll rest chain later) :
    LoadsAll (certStr :: rest) (cert :: chain) (now ++ later)

def freed (cert : Pointer .x509) : Call Pointer := ⟨.x509Free cert, ()⟩

def released (ctx : Pointer .storeCtx) (store : Pointer .store) (untrusted : Option (Pointer .stack)) :
    List (Call Pointer) :=
  [⟨.x509StoreCtxFree ctx, ()⟩, ⟨.x509StoreFree store, ()⟩] ++
    untrusted.toList.map (fun stack => ⟨.skX509Free stack, ()⟩)

def Pinned (publicKeyFile : Bytes) (leaf : Pointer .x509) (log : List (Call Pointer)) : Prop :=
  ∃ contents pinned parsing, Loads contents pinned parsing ∧
    log = [⟨.openFile publicKeyFile, true⟩, ⟨.readFile publicKeyFile, contents⟩] ++ parsing ++
      [⟨.x509Cmp leaf pinned, 0⟩, freed pinned]

/-- The configured bundle and directory load, or the default paths when neither is given. -/
def anchorsLoaded (verifier : BoringSSLProofVerifier) (store : Pointer .store) : Call Pointer :=
  if verifier.caCertBundlePath = [] ∧ verifier.caCertDir = [] then
    ⟨.x509StoreSetDefaultPaths store, 1⟩
  else
    ⟨.x509StoreLoadLocations store (configuredPath verifier.caCertBundlePath)
      (configuredPath verifier.caCertDir), 1⟩

/-- The untrusted stack holds exactly these certificates in this order; there is none for none. -/
inductive Stacks : List (Pointer .x509) → Option (Pointer .stack) → List (Call Pointer) → Prop where
  | nil : Stacks [] none []
  | pushed {rest stack} (some : rest ≠ []) :
    Stacks rest (.some stack) (⟨.skX509NewNull, .some stack⟩ ::
      rest.map (fun cert => ⟨.skX509Push (.some stack) cert, true⟩))

/-- Store and context come into being, the anchors load, the chain verifies with the other
certificates as untrusted ones, and the first certificate is for the host. -/
def Trusted (verifier : BoringSSLProofVerifier) (hostname : Bytes) (leaf : Pointer .x509)
    (rest : List (Pointer .x509)) (log : List (Call Pointer)) : Prop :=
  ∃ store ctx untrusted stacking, Stacks rest untrusted stacking ∧
    log = [⟨.x509StoreNew, some store⟩, anchorsLoaded verifier store, ⟨.x509StoreCtxNew, some ctx⟩] ++ stacking ++
      [⟨.x509StoreCtxInit ctx store leaf untrusted, 1⟩, ⟨.x509VerifyCert ctx, 1⟩,
        ⟨.x509CheckHost leaf hostname hostname.length 0, 1⟩] ++ released ctx store untrusted

def Policy (verifier : BoringSSLProofVerifier) (hostname : Bytes) (certs : List Bytes)
    (log : List (Call Pointer)) : Prop :=
  certs ≠ [] ∧ ∃ chain parsing deciding, LoadsAll certs chain parsing ∧
    log = parsing ++ deciding ++ chain.map freed ∧
    if verifier.publicKeyFile ≠ [] then ∃ leaf, chain = [leaf] ∧ Pinned verifier.publicKeyFile leaf deciding
    else ∃ leaf rest, chain = leaf :: rest ∧ Trusted verifier hostname leaf rest deciding

/-- The stack calls succeed; nothing is said of the other calls. -/
def StackCallSucceeds : Call Pointer → Prop
  | ⟨.skX509NewNull, stack⟩ => stack ≠ none
  | ⟨.skX509Push _ _, pushed⟩ => pushed = true
  | _ => True

def StackCallsSucceed (log : List (Call Pointer)) : Prop := ∀ call ∈ log, StackCallSucceeds call

@[simp] theorem stackCallsSucceed_nil : StackCallsSucceed ([] : List (Call Pointer)) := by simp [StackCallsSucceed]

@[simp] theorem stackCallsSucceed_cons {call : Call Pointer} {log : List (Call Pointer)} :
    StackCallsSucceed (call :: log) ↔ StackCallSucceeds call ∧ StackCallsSucceed log := List.forall_mem_cons

@[simp] theorem stackCallsSucceed_append {first later : List (Call Pointer)} :
    StackCallsSucceed (first ++ later) ↔ StackCallsSucceed first ∧ StackCallsSucceed later := List.forall_mem_append

theorem loadCertificate_yields {certStr : Bytes} {cert : Pointer .x509} {log : List (Call Pointer)} :
    (loadCertificate certStr).Yields log (some cert) ↔ Loads certStr cert log := by
  unfold loadCertificate
  split
  · case isTrue marked =>
    simp only [yields_call_bind]
    constructor
    · rintro ⟨bio, later, rfl, rest⟩
      cases bio with
      | none => simp at rest
      | some bio =>
        simp only [yields_call_bind, yields_pure] at rest
        obtain ⟨_, _, rfl, _, _, rfl, rfl, rfl⟩ := rest
        exact .pem marked
    · intro loads
      cases loads with
      | pem => exact ⟨_, _, rfl, _, _, rfl, _, _, rfl, rfl, rfl⟩
      | der unmarked => exact absurd marked unmarked
  · case isFalse unmarked =>
    rw [yields_call]
    constructor
    · rintro rfl
      exact .der unmarked
    · intro loads
      cases loads with
      | pem marked => exact absurd marked unmarked
      | der => rfl

theorem loadFile_yields {filename contents : Bytes} {log : List (Call Pointer)} :
    (loadFile filename).Yields log (some contents) ↔
      log = [⟨.openFile filename, true⟩, ⟨.readFile filename, contents⟩] := by
  simp only [loadFile, yields_call_bind]
  constructor
  · rintro ⟨opened, later, rfl, rest⟩
    cases opened with
    | false => simp at rest
    | true =>
      obtain ⟨read, _, rfl, rfl, equal⟩ := rest
      cases equal
      rfl
  · rintro rfl
    exact ⟨true, _, rfl, contents, _, rfl, rfl, rfl⟩

theorem freeAll_yields {chain : List (Pointer .x509)} {log : List (Call Pointer)} {result : Unit} :
    (freeAll chain).Yields log result ↔ log = chain.map freed := by
  induction chain generalizing log with
  | nil => simp [freeAll]
  | cons cert rest ih =>
    simp only [freeAll, yields_call_bind, ih, List.map_cons]
    constructor
    · rintro ⟨_, _, rfl, rfl⟩
      rfl
    · rintro rfl
      exact ⟨(), _, rfl, rfl⟩

/-- The loop yields a chain exactly when every remaining string loads, in order. -/
theorem loadChain_yields {certs : List Bytes} {loaded chain : List (Pointer .x509)} {log : List (Call Pointer)} :
    (loadChain certs loaded).Yields log (some chain) ↔
      ∃ later, chain = loaded ++ later ∧ LoadsAll certs later log := by
  induction certs generalizing loaded log with
  | nil =>
    constructor
    · rintro ⟨rfl, equal⟩
      cases equal
      exact ⟨[], (List.append_nil _).symm, .nil⟩
    · rintro ⟨later, rfl, loads⟩
      cases loads
      rw [List.append_nil]
      exact ⟨rfl, rfl⟩
  | cons certStr rest ih =>
    simp only [loadChain, yields_bind]
    constructor
    · rintro ⟨now, parsed, tail, rfl, first, after⟩
      cases parsed with
      | none => simp [yields_bind] at after
      | some cert =>
        obtain ⟨later, rfl, others⟩ := ih.mp after
        exact ⟨cert :: later, by simp, .cons (loadCertificate_yields.mp first) others⟩
    · rintro ⟨_, rfl, loads⟩
      cases loads with
      | cons first others =>
        refine ⟨_, some _, _, rfl, loadCertificate_yields.mpr first, ih.mpr ⟨_, ?_, others⟩⟩
        simp

theorem verifyPinned_yields {publicKeyFile : Bytes} {chain : List (Pointer .x509)} {log : List (Call Pointer)} :
    (verifyPinned publicKeyFile chain).Yields log true ↔
      ∃ leaf, chain = [leaf] ∧ Pinned publicKeyFile leaf log := by
  match chain with
  | [] => simp [verifyPinned]
  | leaf :: other :: rest => simp [verifyPinned]
  | [leaf] =>
    simp only [verifyPinned, yields_bind]
    constructor
    · rintro ⟨reading, file, tail, rfl, loaded, rest⟩
      cases file with
      | none => simp at rest
      | some contents =>
        cases loadFile_yields.mp loaded
        obtain ⟨parsing, parsed, tail, rfl, first, rest⟩ := yields_bind.mp rest
        cases parsed with
        | none => simp at rest
        | some pinned =>
          obtain ⟨order, _, rfl, _, _, rfl, rfl, equal⟩ := rest
          cases eq_of_beq equal
          exact ⟨leaf, rfl, contents, pinned, parsing, loadCertificate_yields.mp first, by simp [freed]⟩
    · rintro ⟨_, equal, contents, pinned, parsing, loads, rfl⟩
      cases equal
      rw [List.append_assoc]
      refine ⟨_, some contents, _, rfl, loadFile_yields.mpr rfl, ?_⟩
      exact yields_bind.mpr ⟨parsing, some pinned, _, rfl, loadCertificate_yields.mpr loads,
        0, _, rfl, (), _, rfl, rfl, rfl⟩

theorem loadAnchors_yields {verifier : BoringSSLProofVerifier} {store : Pointer .store} {log : List (Call Pointer)} :
    (loadAnchors verifier store).Yields log 1 ↔ log = [anchorsLoaded verifier store] := by
  unfold loadAnchors anchorsLoaded
  by_cases given : verifier.caCertBundlePath = [] ∧ verifier.caCertDir = []
  · rw [if_pos given, if_neg (by simp [given]), yields_call]
  · rw [if_neg given, if_pos (by simpa [-not_and, not_and_or] using given), yields_call]

theorem pushAll_yields {stack : Option (Pointer .stack)} {rest : List (Pointer .x509)} {log : List (Call Pointer)}
    {result : Unit} (succeeds : StackCallsSucceed log) :
    (pushAll stack rest).Yields log result ↔ log = rest.map (fun cert => ⟨.skX509Push stack cert, true⟩) := by
  induction rest generalizing log with
  | nil => simp [pushAll]
  | cons cert rest ih =>
    simp only [pushAll, yields_call_bind, List.map_cons]
    constructor
    · rintro ⟨pushed, later, rfl, after⟩
      obtain ⟨now, others⟩ := stackCallsSucceed_cons.mp succeeds
      change pushed = true at now
      rw [now, (ih others).mp after]
    · rintro rfl
      exact ⟨true, _, rfl, (ih (stackCallsSucceed_cons.mp succeeds).2).mpr rfl⟩

/-- With stack calls that succeed the stack is new and holds every intermediate. -/
theorem stackIntermediates_yields {rest : List (Pointer .x509)} {untrusted : Option (Pointer .stack)}
    {log : List (Call Pointer)} (succeeds : StackCallsSucceed log) :
    (stackIntermediates rest).Yields log untrusted ↔ Stacks rest untrusted log := by
  cases rest with
  | nil =>
    constructor
    · rintro ⟨rfl, rfl⟩
      exact .nil
    · intro stacked
      cases stacked with
      | nil => exact ⟨rfl, rfl⟩
      | pushed some => exact absurd rfl some
  | cons cert rest =>
    simp only [stackIntermediates, List.isEmpty_cons, Bool.false_eq_true, if_false, yields_call_bind]
    constructor
    · rintro ⟨created, _, rfl, after⟩
      obtain ⟨pushes, _, _, rfl, pushed, rfl, rfl⟩ := yields_bind.mp after
      rw [List.append_nil] at *
      obtain ⟨new, others⟩ := stackCallsSucceed_cons.mp succeeds
      obtain ⟨stack, rfl⟩ := Option.ne_none_iff_exists'.mp new
      rw [(pushAll_yields others).mp pushed]
      exact .pushed (by simp)
    · intro stacked
      cases stacked with
      | @pushed _ stack =>
        have pushed : (pushAll (some stack) (cert :: rest)).Yields _ () :=
          (pushAll_yields (stackCallsSucceed_cons.mp succeeds).2).mpr rfl
        refine ⟨_, _, rfl, yields_bind.mpr ?_⟩
        exact ⟨_, (), [], (List.append_nil _).symm, pushed, rfl, rfl⟩

theorem releaseContext_yields {ctx : Pointer .storeCtx} {store : Pointer .store}
    {untrusted : Option (Pointer .stack)} {log : List (Call Pointer)} {result : Unit} :
    (releaseContext ctx store untrusted).Yields log result ↔ log = released ctx store untrusted := by
  simp only [releaseContext, yields_call_bind]
  cases untrusted with
  | none =>
    constructor
    · rintro ⟨_, _, rfl, _, _, rfl, rfl, -⟩
      rfl
    · rintro rfl
      exact ⟨(), _, rfl, (), _, rfl, rfl, rfl⟩
  | some stack =>
    constructor
    · rintro ⟨_, _, rfl, _, _, rfl, _, _, rfl, rfl, -⟩
      rfl
    · rintro rfl
      exact ⟨(), _, rfl, (), _, rfl, (), _, rfl, rfl, rfl⟩

theorem checkPeer_yields {ctx : Pointer .storeCtx} {leaf : Pointer .x509} {hostname : Bytes}
    {log : List (Call Pointer)} :
    (checkPeer ctx leaf hostname).Yields log true ↔
      log = [⟨.x509VerifyCert ctx, 1⟩, ⟨.x509CheckHost leaf hostname hostname.length 0, 1⟩] := by
  simp only [checkPeer, yields_call_bind]
  constructor
  · rintro ⟨verified, later, rfl, rest⟩
    split at rest
    · case isTrue valid =>
      obtain ⟨matching, _, rfl, rfl, equal⟩ := rest
      rw [eq_of_beq valid, eq_of_beq equal]
    · case isFalse => simp at rest
  · rintro rfl
    exact ⟨1, _, rfl, 1, _, rfl, rfl, rfl⟩

theorem verifyInContext_yields {ctx : Pointer .storeCtx} {store : Pointer .store} {hostname : Bytes}
    {leaf : Pointer .x509} {rest : List (Pointer .x509)} {log : List (Call Pointer)}
    (succeeds : StackCallsSucceed log) :
    (verifyInContext ctx store hostname leaf rest).Yields log (some true) ↔
      ∃ untrusted stacking, Stacks rest untrusted stacking ∧
        log = stacking ++ [⟨.x509StoreCtxInit ctx store leaf untrusted, 1⟩, ⟨.x509VerifyCert ctx, 1⟩,
          ⟨.x509CheckHost leaf hostname hostname.length 0, 1⟩] ++ released ctx store untrusted := by
  constructor
  · intro yields
    obtain ⟨stacking, untrusted, _, rfl, stack, withStack⟩ := yields_bind.mp yields
    obtain ⟨initialised, _, rfl, ready⟩ := yields_call_bind.mp withStack
    split at ready
    · simp [yields_bind] at ready
    · case isFalse one =>
      obtain rfl : initialised = 1 := by simpa using one
      obtain ⟨_, valid, _, rfl, check, verdict⟩ := yields_bind.mp ready
      obtain ⟨_, _, _, rfl, release, rfl, equal⟩ := yields_bind.mp verdict
      cases equal
      cases checkPeer_yields.mp check
      cases releaseContext_yields.mp release
      have stacked := (stackIntermediates_yields (stackCallsSucceed_append.mp succeeds).1).mp stack
      exact ⟨untrusted, stacking, stacked, by simp⟩
  · rintro ⟨untrusted, stacking, stacked, rfl⟩
    rw [List.append_assoc] at succeeds ⊢
    refine .bind ((stackIntermediates_yields (stackCallsSucceed_append.mp succeeds).1).mpr stacked) (.call 1 ?_)
    have checked : (checkPeer ctx leaf hostname).Yields _ true := checkPeer_yields.mpr rfl
    have clean : (releaseContext ctx store untrusted).Yields _ () := releaseContext_yields.mpr rfl
    have verdict : (releaseContext ctx store untrusted >>= fun _ => pure (some true)).Yields _ (some true) :=
      .bind clean ⟨rfl, rfl⟩
    rw [List.append_nil] at verdict
    exact .bind checked verdict

/-- Every exit before the check returns without a verdict, so only one path accepts. -/
theorem verifyAuthorities_yields {verifier : BoringSSLProofVerifier} {hostname : Bytes} {leaf : Pointer .x509}
    {rest : List (Pointer .x509)} {log : List (Call Pointer)} (succeeds : StackCallsSucceed log) :
    (verifyAuthorities verifier hostname leaf rest).Yields log (some true) ↔
      Trusted verifier hostname leaf rest log := by
  constructor
  · intro yields
    obtain ⟨created, _, rfl, withStore⟩ := yields_call_bind.mp yields
    cases created with
    | none => simp [yields_bind] at withStore
    | some store =>
      obtain ⟨_, loaded, _, rfl, load, withAnchors⟩ := yields_bind.mp withStore
      split at withAnchors
      · simp [yields_bind] at withAnchors
      · case isFalse one =>
        obtain rfl : loaded = 1 := by simpa using one
        cases loadAnchors_yields.mp load
        obtain ⟨created, _, rfl, withContext⟩ := yields_call_bind.mp withAnchors
        cases created with
        | none => simp [yields_bind] at withContext
        | some ctx =>
          simp only [stackCallsSucceed_cons, stackCallsSucceed_append] at succeeds
          obtain ⟨untrusted, stacking, stacked, rfl⟩ := (verifyInContext_yields succeeds.2.2.2).mp withContext
          exact ⟨store, ctx, untrusted, stacking, stacked, by simp⟩
  · rintro ⟨store, ctx, untrusted, stacking, stacked, rfl⟩
    simp only [List.append_assoc] at succeeds ⊢
    unfold verifyAuthorities
    refine yields_call_bind.mpr ⟨some store, _, rfl, ?_⟩
    refine yields_bind.mpr ⟨[anchorsLoaded verifier store], 1, _, rfl, loadAnchors_yields.mpr rfl, ?_⟩
    refine yields_call_bind.mpr ⟨some ctx, _, rfl, ?_⟩
    refine (verifyInContext_yields (stackCallsSucceed_append.mp succeeds).2).mpr ⟨untrusted, stacking, stacked, ?_⟩
    rw [List.append_assoc]

theorem verifyChain_yields {verifier : BoringSSLProofVerifier} {hostname : Bytes} {chain : List (Pointer .x509)}
    {log : List (Call Pointer)} (succeeds : StackCallsSucceed log) :
    (verifyChain verifier hostname chain).Yields log (some true) ↔
      if verifier.publicKeyFile ≠ [] then ∃ leaf, chain = [leaf] ∧ Pinned verifier.publicKeyFile leaf log
      else ∃ leaf rest, chain = leaf :: rest ∧ Trusted verifier hostname leaf rest log := by
  have flag := verifier.usePublicKey_eq
  cases chain with
  | nil => simp [verifyChain]
  | cons leaf rest =>
    by_cases pinned : verifier.publicKeyFile = []
    · rw [pinned] at flag
      rw [if_neg (not_not.mpr pinned), verifyChain, flag, if_neg (by simp), verifyAuthorities_yields succeeds]
      simp
    · rw [if_pos pinned, verifyChain, flag, if_pos (by simpa using pinned), ← verifyPinned_yields]
      constructor
      · intro yields
        obtain ⟨_, valid, _, rfl, pin, rfl, equal⟩ := yields_bind.mp yields
        cases equal
        rwa [List.append_nil]
      · intro pin
        exact yields_bind.mpr ⟨log, true, [], (List.append_nil _).symm, pin, rfl, rfl⟩

/-- Acceptance, on every log with successful stack calls. -/
theorem verifyCertChain_yields {verifier : BoringSSLProofVerifier} {hostname : Bytes} {certs : List Bytes}
    {log : List (Call Pointer)} (succeeds : StackCallsSucceed log) :
    (verifyCertChain verifier hostname certs).Yields log .success ↔ Policy verifier hostname certs log := by
  unfold verifyCertChain
  split
  · case isTrue empty =>
    simp [Policy, List.isEmpty_iff.mp empty]
  · case isFalse given =>
    constructor
    · intro yields
      obtain ⟨parsing, parsed, _, rfl, parse, withChain⟩ := yields_bind.mp yields
      cases parsed with
      | none => simp at withChain
      | some chain =>
        obtain ⟨deciding, verdict, _, rfl, decide, withVerdict⟩ := yields_bind.mp withChain
        cases verdict with
        | none => simp at withVerdict
        | some valid =>
          obtain ⟨_, _, _, rfl, free, rfl, equal⟩ := yields_bind.mp withVerdict
          obtain rfl : valid = true := by
            cases valid with
            | false => simp at equal
            | true => rfl
          cases freeAll_yields.mp free
          obtain ⟨_, rfl, loads⟩ := loadChain_yields.mp parse
          simp only [stackCallsSucceed_append] at succeeds
          have decided := (verifyChain_yields succeeds.2.1).mp decide
          exact ⟨by simpa using given, _, parsing, deciding, loads, by simp, decided⟩
    · rintro ⟨-, chain, parsing, deciding, loads, rfl, decided⟩
      rw [List.append_assoc] at succeeds ⊢
      simp only [stackCallsSucceed_append] at succeeds
      have parse : (loadChain certs []).Yields parsing (some chain) := loadChain_yields.mpr ⟨chain, rfl, loads⟩
      have free : (freeAll chain).Yields (chain.map freed) () := freeAll_yields.mpr rfl
      refine .bind parse (.bind ((verifyChain_yields succeeds.2.1).mpr decided) ?_)
      exact yields_bind.mpr ⟨_, (), [], (List.append_nil _).symm, free, rfl, rfl⟩

theorem verifyCertChain_settles {verifier : BoringSSLProofVerifier} {hostname : Bytes} {certs : List Bytes}
    {log : List (Call Pointer)} {status : QuicAsyncStatus}
    (yields : (verifyCertChain verifier hostname certs).Yields log status) : status = .success ∨ status = .failure := by
  unfold verifyCertChain at yields
  split at yields
  · exact .inr yields.2.symm
  · obtain ⟨_, parsed, _, rfl, _, withChain⟩ := yields_bind.mp yields
    cases parsed with
    | none => exact .inr withChain.2.symm
    | some chain =>
      obtain ⟨_, verdict, _, rfl, _, withVerdict⟩ := yields_bind.mp withChain
      cases verdict with
      | none => exact .inr withVerdict.2.symm
      | some valid =>
        obtain ⟨_, _, _, rfl, _, -, equal⟩ := yields_bind.mp withVerdict
        cases valid with
        | false => exact .inr equal.symm
        | true => exact .inl equal.symm

/-- A library that grants everything; every pointer it returns is 1. -/
def granting : Library fun _ => Nat
  | _, .openFile _ | _, .skX509Push _ _ => true
  | _, .readFile _ => []
  | _, .bioNewMemBuf _ _ | _, .pemReadBioX509 _ | _, .d2iX509 _ _ => some 1
  | _, .x509Cmp _ _ => 0
  | _, .x509CheckHost .. | _, .x509StoreLoadLocations .. | _, .x509StoreSetDefaultPaths _
  | _, .x509StoreCtxInit .. | _, .x509VerifyCert _ => 1
  | _, .x509StoreCtxGetError _ => 0
  | _, .x509StoreNew | _, .x509StoreCtxNew | _, .skX509NewNull => some 1
  | _, .bioFree _ | _, .x509Free _ | _, .x509StoreFree _ | _, .x509StoreCtxFree _ | _, .skX509Free _ => ()

theorem granting_stacks (past : List (Call fun _ => Nat)) (question : Question fun _ => Nat) :
    StackCallSucceeds ⟨question, granting past question⟩ := by
  cases question <;> simp [StackCallSucceeds, granting]

end WebTransport.Verify
