import WebTransport.Theory.Calls
import Mathlib.Data.List.Infix

/-! Certificate verification of the client. Files and BoringSSL are the library: each
call is a question with the arguments it is given, and its answer is what comes back.
Logging is left out. -/
namespace WebTransport.Verify

abbrev Bytes : Type := List UInt8

inductive Object where
  | bio | x509 | store | storeCtx | stack
  deriving DecidableEq, Repr

/-- The calls of the source with their arguments. `sk_X509_push` is asked whether it pushed. -/
inductive Question (Pointer : Object → Type) where
  | openFile (filename : Bytes)
  | readFile (filename : Bytes)
  | bioNewMemBuf (data : Bytes) (size : Int32)
  | pemReadBioX509 (bio : Pointer .bio)
  | bioFree (bio : Pointer .bio)
  | d2iX509 (data : Bytes) (size : Nat)
  | x509Cmp (first second : Pointer .x509)
  | x509CheckHost (cert : Pointer .x509) (host : Bytes) (size : Nat) (flags : Nat)
  | x509Free (cert : Pointer .x509)
  | x509StoreNew
  | x509StoreLoadLocations (store : Pointer .store) (file dir : Option Bytes)
  | x509StoreSetDefaultPaths (store : Pointer .store)
  | x509StoreFree (store : Pointer .store)
  | x509StoreCtxNew
  | x509StoreCtxInit (ctx : Pointer .storeCtx) (store : Pointer .store) (leaf : Pointer .x509)
      (untrusted : Option (Pointer .stack))
  | x509VerifyCert (ctx : Pointer .storeCtx)
  | x509StoreCtxGetError (ctx : Pointer .storeCtx)
  | x509StoreCtxFree (ctx : Pointer .storeCtx)
  | skX509NewNull
  | skX509Push (stack : Option (Pointer .stack)) (cert : Pointer .x509)
  | skX509Free (stack : Pointer .stack)

/-- A null pointer is `none`. -/
abbrev Answer {Pointer : Object → Type} : Question Pointer → Type
  | .openFile _ | .skX509Push .. => Bool
  | .readFile _ => Bytes
  | .bioNewMemBuf .. => Option (Pointer .bio)
  | .pemReadBioX509 _ | .d2iX509 .. => Option (Pointer .x509)
  | .x509Cmp .. | .x509CheckHost .. | .x509StoreLoadLocations .. | .x509StoreSetDefaultPaths _
  | .x509StoreCtxInit .. | .x509VerifyCert _ | .x509StoreCtxGetError _ => Int32
  | .x509StoreNew => Option (Pointer .store)
  | .x509StoreCtxNew => Option (Pointer .storeCtx)
  | .skX509NewNull => Option (Pointer .stack)
  | .bioFree _ | .x509Free _ | .x509StoreFree _ | .x509StoreCtxFree _ | .skX509Free _ => Unit

inductive QuicAsyncStatus where
  | success | failure | pending
  deriving DecidableEq, Repr

/-- The configuration; the flag is set once, by the constructors. -/
structure BoringSSLProofVerifier where
  publicKeyFile : Bytes
  caCertBundlePath : Bytes
  caCertDir : Bytes
  usePublicKey : Bool
  usePublicKey_eq : usePublicKey = !publicKeyFile.isEmpty

namespace BoringSSLProofVerifier

def default : BoringSSLProofVerifier := ⟨[], [], [], false, rfl⟩

def new (publicKeyFile caCertBundlePath caCertDir : Bytes) : BoringSSLProofVerifier :=
  ⟨publicKeyFile, caCertBundlePath, caCertDir, !publicKeyFile.isEmpty, rfl⟩

/-- Every configuration is one that the constructor builds. -/
theorem eq_new (verifier : BoringSSLProofVerifier) :
    verifier = new verifier.publicKeyFile verifier.caCertBundlePath verifier.caCertDir := by
  obtain ⟨publicKeyFile, caCertBundlePath, caCertDir, usePublicKey, rfl⟩ := verifier
  rfl

end BoringSSLProofVerifier

abbrev Call (Pointer : Object → Type) : Type := @Calls.Call (Question Pointer) Answer

abbrev Library (Pointer : Object → Type) : Type := @Calls.Program.Library (Question Pointer) Answer

abbrev Script (Pointer : Object → Type) : Type → Type := Calls.Program (Question Pointer) Answer

variable {Pointer : Object → Type}

abbrev call (question : Question Pointer) : Script Pointer (Answer question) := Calls.Program.call question

def pemMarker : Bytes := "-----BEGIN CERTIFICATE-----".toList.map (fun c => UInt8.ofNat c.toNat)

def loadCertificate (certStr : Bytes) : Script Pointer (Option (Pointer .x509)) :=
  if pemMarker <:+: certStr then do
    match ← call (.bioNewMemBuf certStr (Int32.ofNat certStr.length)) with
    | none => pure none
    | some bio =>
      let cert ← call (.pemReadBioX509 bio)
      call (.bioFree bio)
      pure cert
  else
    call (.d2iX509 certStr certStr.length)

/-- A failing read still leaves what was read so far, so only opening can fail. -/
def loadFile (filename : Bytes) : Script Pointer (Option Bytes) := do
  if ← call (.openFile filename) then
    let contents ← call (.readFile filename)
    pure (some contents)
  else
    pure none

def freeAll : List (Pointer .x509) → Script Pointer Unit
  | [] => pure ()
  | cert :: rest => do
    call (.x509Free cert)
    freeAll rest

/-- The parse loop with the chain so far; a certificate that does not parse ends the call. -/
def loadChain : List Bytes → List (Pointer .x509) → Script Pointer (Option (List (Pointer .x509)))
  | [], x509Chain => pure (some x509Chain)
  | certStr :: rest, x509Chain => do
    match ← loadCertificate certStr with
    | none =>
      freeAll x509Chain
      pure none
    | some cert => loadChain rest (x509Chain ++ [cert])

def verifyPinned (publicKeyFile : Bytes) : List (Pointer .x509) → Script Pointer Bool
  | [leaf] => do
    match ← loadFile publicKeyFile with
    | none => pure false
    | some pinnedCertData =>
      match ← loadCertificate pinnedCertData with
      | none => pure false
      | some pinnedCert =>
        let order ← call (.x509Cmp leaf pinnedCert)
        call (.x509Free pinnedCert)
        pure (order == 0)
  | _ => pure false

def configuredPath (path : Bytes) : Option Bytes := if path.isEmpty then none else some path

def loadAnchors (verifier : BoringSSLProofVerifier) (store : Pointer .store) : Script Pointer Int32 :=
  if !verifier.caCertBundlePath.isEmpty || !verifier.caCertDir.isEmpty then
    call (.x509StoreLoadLocations store (configuredPath verifier.caCertBundlePath)
      (configuredPath verifier.caCertDir))
  else
    call (.x509StoreSetDefaultPaths store)

def pushAll (stack : Option (Pointer .stack)) : List (Pointer .x509) → Script Pointer Unit
  | [] => pure ()
  | cert :: rest => do
    let _ ← call (.skX509Push stack cert)
    pushAll stack rest

def stackIntermediates (rest : List (Pointer .x509)) : Script Pointer (Option (Pointer .stack)) :=
  if rest.isEmpty then
    pure none
  else do
    let intermediates ← call .skX509NewNull
    pushAll intermediates rest
    pure intermediates

def freeStack : Option (Pointer .stack) → Script Pointer Unit
  | none => pure ()
  | some untrusted => call (.skX509Free untrusted)

def checkPeer (ctx : Pointer .storeCtx) (leaf : Pointer .x509) (hostname : Bytes) : Script Pointer Bool := do
  if (← call (.x509VerifyCert ctx)) == 1 then
    let matching ← call (.x509CheckHost leaf hostname hostname.length 0)
    pure (matching == 1)
  else
    let _ ← call (.x509StoreCtxGetError ctx)
    pure false

def releaseContext (ctx : Pointer .storeCtx) (store : Pointer .store) (untrusted : Option (Pointer .stack)) :
    Script Pointer Unit := do
  call (.x509StoreCtxFree ctx)
  call (.x509StoreFree store)
  freeStack untrusted

def verifyInContext (ctx : Pointer .storeCtx) (store : Pointer .store) (hostname : Bytes)
    (leaf : Pointer .x509) (rest : List (Pointer .x509)) : Script Pointer (Option Bool) := do
  let untrusted ← stackIntermediates rest
  if (← call (.x509StoreCtxInit ctx store leaf untrusted)) != 1 then
    releaseContext ctx store untrusted
    freeAll (leaf :: rest)
    pure none
  else
    let valid ← checkPeer ctx leaf hostname
    releaseContext ctx store untrusted
    pure (some valid)

/-- CA chain verification; `none` is a return with the chain already freed. -/
def verifyAuthorities (verifier : BoringSSLProofVerifier) (hostname : Bytes) (leaf : Pointer .x509)
    (rest : List (Pointer .x509)) : Script Pointer (Option Bool) := do
  match ← call .x509StoreNew with
  | none =>
    freeAll (leaf :: rest)
    pure none
  | some store =>
    -- both ways of loading the anchors fail into the same clean-up
    if (← loadAnchors verifier store) != 1 then
      call (.x509StoreFree store)
      freeAll (leaf :: rest)
      pure none
    else
      match ← call .x509StoreCtxNew with
      | none =>
        call (.x509StoreFree store)
        freeAll (leaf :: rest)
        pure none
      | some ctx => verifyInContext ctx store hostname leaf rest

def verifyChain (verifier : BoringSSLProofVerifier) (hostname : Bytes) :
    List (Pointer .x509) → Script Pointer (Option Bool)
  | [] => pure (some false)  -- not reached, the chain has as many members as the list
  | leaf :: rest =>
    if verifier.usePublicKey then do
      let valid ← verifyPinned verifier.publicKeyFile (leaf :: rest)
      pure (some valid)
    else
      verifyAuthorities verifier hostname leaf rest

def verifyCertChain (verifier : BoringSSLProofVerifier) (hostname : Bytes) (certs : List Bytes) :
    Script Pointer QuicAsyncStatus :=
  if certs.isEmpty then
    pure .failure
  else do
    match ← loadChain certs [] with
    | none => pure .failure
    | some x509Chain =>
      match ← verifyChain verifier hostname x509Chain with
      | none => pure .failure
      | some valid =>
        freeAll x509Chain
        pure (if valid then .success else .failure)

end WebTransport.Verify
