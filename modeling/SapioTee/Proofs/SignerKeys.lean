import SapioTee.Proofs.SignerNonces

/-!
# `finish` signs with the key `prepare` authorized

Two derivations of one key. `prepare` derives in public, x-only, and takes
the point with even y; `finish` derives in private and normalizes the pair by
adding zero as an x-only tweak. `KeyLaws` is what the crates document about
the four functions involved: points have a parity and a negation, and nothing
about the curve is needed beyond that. The two derivations then meet at the
even point of the derived pair, whichever parity it had.
-/

namespace SapioTee

open Lib

variable {T : Types}

/-- Points and derivation as rust-bitcoin and Sapio document them. -/
structure KeyLaws (C : Crates T) where
  /-- `Keypair::public_key`. -/
  publicKey : T.Keypair → T.PublicKey
  /-- The public key an `Xpub` carries. -/
  xpubKey : T.Xpub → T.PublicKey
  /-- `Xpub::derive_pub`. -/
  derivePub : T.Xpub → T.DerivationPath → Except String T.Xpub
  isOdd : T.PublicKey → Bool
  negate : T.PublicKey → T.PublicKey
  /-- `PublicKey::x_only_public_key`, without the parity. -/
  xOnly : T.PublicKey → T.XOnlyPublicKey
  /-- The point plus a multiple of the generator, unless that is infinity. -/
  addTweak : T.PublicKey → Nat → Option T.PublicKey
  addTweak_zero : ∀ point, addTweak point 0 = some point
  fromPriv_key : ∀ key, xpubKey (C.fromPriv key) = publicKey (C.toKeypair key)
  derive_commute : ∀ root id derived,
    derivePub (C.fromPriv root) (C.programDerivationPath id) = .ok derived →
    ∃ key, C.derivePriv root (C.programDerivationPath id) = .ok key ∧
      C.fromPriv key = derived
  derivePublicKey_ok : ∀ program root key,
    C.derivePublicKey program root = .ok key →
    ∃ derived, derivePub root (C.programDerivationPath (C.instanceId program))
      = .ok derived ∧ key = xOnly (xpubKey derived)
  evenPublicKey_xOnly : ∀ point, C.evenPublicKey (xOnly point)
    = if isOdd point then negate point else point
  /-- An odd key is negated before the tweak is added; only a sum at
  infinity is refused. -/
  addXonlyTweak_ok : ∀ keypair tweak point,
    addTweak (if isOdd (publicKey keypair) then negate (publicKey keypair)
      else publicKey keypair) tweak = some point →
    ∃ result, C.addXonlyTweak keypair tweak = .ok result ∧
      publicKey result = point

variable {C : Crates T} {self : ArkSigner T}

/-- A signer keeps the public key of its root beside it. -/
theorem publicRoot_of_new {evaluators : Except Error (List WasmEvaluator)}
    {root : T.Xpriv} (h : ArkSigner.new C evaluators root = .ok self) :
    self.root = root ∧ self.publicRoot = C.fromPriv root := by
  unfold ArkSigner.new at h
  split at h
  · cases h
  · obtain ⟨registry, -, h⟩ := bind_ok h
    injection h with h
    subst h
    exact ⟨rfl, rfl⟩

/-- The zero tweak gives the even point of a pair, for either parity. -/
theorem KeyLaws.normalized (laws : KeyLaws C) (keypair : T.Keypair) :
    ∃ result, C.addXonlyTweak keypair 0 = .ok result ∧
      laws.publicKey result
        = C.evenPublicKey (laws.xOnly (laws.publicKey keypair)) := by
  obtain ⟨result, hresult, hpoint⟩ :=
    laws.addXonlyTweak_ok keypair 0 _ (laws.addTweak_zero _)
  refine ⟨result, hresult, ?_⟩
  rw [hpoint, laws.evenPublicKey_xOnly]

/-- The private derivation meets the public one at the even point. -/
theorem KeyLaws.meet (laws : KeyLaws C) {root : T.Xpriv}
    {program : ProgramInstance} {derived : T.XOnlyPublicKey}
    (h : C.derivePublicKey program (C.fromPriv root) = .ok derived) :
    ∃ key keypair,
      C.derivePriv root (C.programDerivationPath (C.instanceId program))
        = .ok key ∧
      C.addXonlyTweak (C.toKeypair key) 0 = .ok keypair ∧
      laws.publicKey keypair = C.evenPublicKey derived := by
  obtain ⟨xpub, hpub, rfl⟩ := laws.derivePublicKey_ok program _ derived h
  obtain ⟨key, hpriv, rfl⟩ := laws.derive_commute root _ xpub hpub
  obtain ⟨keypair, htweak, hpoint⟩ := laws.normalized (C.toKeypair key)
  refine ⟨key, keypair, hpriv, htweak, ?_⟩
  rw [hpoint, laws.fromPriv_key]

theorem finishKeypair_of_admitted (laws : KeyLaws C)
    {evaluators : Except Error (List WasmEvaluator)} {root : T.Xpriv}
    (hnew : ArkSigner.new C evaluators root = .ok self)
    {request : PrepareRequest T} {grant : Grant T} {entry : Pending T}
    (hadmitted : Admitted C self request grant)
    (hid : entry.programId = C.instanceId grant.program) :
    ∃ keypair, finishKeypair C self entry = .ok keypair ∧
      laws.publicKey keypair
        = getElem grant.intent.members 1 Nat.one_lt_two := by
  obtain ⟨hroot, hpublic⟩ := publicRoot_of_new hnew
  obtain ⟨derived, hderived, hmember⟩ := hadmitted.member
  rw [hadmitted.root, hpublic] at hderived
  obtain ⟨key, keypair, hpriv, htweak, hpoint⟩ := laws.meet hderived
  refine ⟨keypair, ?_, hpoint.trans hmember⟩
  rw [finishKeypair, hroot, hid, hpriv]
  show outside (C.addXonlyTweak (C.toKeypair key) 0) = .ok keypair
  rw [htweak]
  rfl

/-- Where a share of a step comes from. -/
theorem Moves.signed {w w' : World T} {a : Act T} {new : List (Event T)}
    (h : Moves C self w a w' new) {k : Nat} {nonce : Nonce T}
    {keypair : T.Keypair} {session : T.Session}
    (hmem : .signed k nonce keypair session ∈ new) :
    ∃ request entry, w.calls k = .holding request entry ∧
      nonce = entry.nonce ∧
      finishSession C self request entry w.clock = .ok (session, keypair) := by
  cases h with
  | sign hcall hs =>
      simp only [List.mem_cons, List.not_mem_nil, or_false,
        reduceCtorEq] at hmem
      injection hmem with hk hn hkey hsession
      subst hk hn hkey hsession
      exact ⟨_, _, hcall, rfl, hs⟩
  | _ => simp at hmem

/-- A share is made with a pair that some prepared entry of the run
derives. -/
theorem signed_of_reached {w : World T} {es : List (Event T)}
    (h : Reached C self w es) :
    ∀ k nonce keypair session, .signed k nonce keypair session ∈ es →
      ∃ call request now response entry,
        .prepared call request now response entry ∈ es ∧
        entry.nonce = nonce ∧ finishKeypair C self entry = .ok keypair := by
  refine signer_induct (P := fun _ es => ∀ k nonce keypair session,
    .signed k nonce keypair session ∈ es →
      ∃ call request now response entry,
        .prepared call request now response entry ∈ es ∧
        entry.nonce = nonce ∧ finishKeypair C self entry = .ok keypair)
    ?_ ?_ h
  · intro k nonce keypair session hmem
    cases hmem
  · intro w a w' es new hreach hes hm k nonce keypair session hmem
    rcases List.mem_append.mp hmem with hold | hnew
    · obtain ⟨call, request, now, response, entry, hprepared, hrest⟩ :=
        hes k nonce keypair session hold
      exact ⟨call, request, now, response, entry,
        List.mem_append_left _ hprepared, hrest⟩
    · obtain ⟨request, entry, hcall, hnonce, hs⟩ := hm.signed hnew
      have hist := history_of_reached hreach
      obtain ⟨call, r, now, response, hprepared, -⟩ :=
        hist.took (hist.holding hcall)
      obtain ⟨-, derived, hderived, htweak⟩ := finishSession_ok hs
      refine ⟨call, r, now, response, entry, List.mem_append_left _ hprepared,
        hnonce.symm, ?_⟩
      rw [finishKeypair, hderived]
      show outside (C.addXonlyTweak (C.toKeypair derived) 0) = .ok keypair
      rw [htweak]
      rfl

/-- In every run of a signer built from a root: the entry of an accepted
prepare makes `finish` derive a pair, and its full public key is the second
member of the intent that prepare authorized; and every share is made with
the pair of such an entry. -/
theorem finish_key_authorized (C : Crates T) (laws : KeyLaws C)
    (evaluators : Except Error (List WasmEvaluator)) (root : T.Xpriv)
    (self : ArkSigner T) (hnew : ArkSigner.new C evaluators root = .ok self)
    (acts : List (Act T)) :
    (∀ call request now response entry,
      .prepared call request now response entry ∈ (signer C self).trace acts →
      C.intent request.action request.key = .ok entry.intent ∧
      ∃ keypair, finishKeypair C self entry = .ok keypair ∧
        laws.publicKey keypair
          = getElem entry.intent.members 1 Nat.one_lt_two) ∧
    (∀ k nonce keypair session,
      .signed k nonce keypair session ∈ (signer C self).trace acts →
      ∃ call request now response entry,
        .prepared call request now response entry
          ∈ (signer C self).trace acts ∧
        entry.nonce = nonce ∧
        laws.publicKey keypair
          = getElem entry.intent.members 1 Nat.one_lt_two) := by
  have hreach := reached_run C self acts
  have hprepared : ∀ call request now response entry,
      .prepared call request now response entry ∈ (signer C self).trace acts →
      C.intent request.action request.key = .ok entry.intent ∧
      ∃ keypair, finishKeypair C self entry = .ok keypair ∧
        laws.publicKey keypair
          = getElem entry.intent.members 1 Nat.one_lt_two := by
    intro call request now response entry hmem
    obtain ⟨grant, hminted⟩ := (history_of_reached hreach).minted hmem
    have hadmitted := admitted_of_authorize hminted.admitted
    rw [hminted.intent]
    exact ⟨hadmitted.intent,
      finishKeypair_of_admitted laws hnew hadmitted hminted.programId⟩
  refine ⟨hprepared, ?_⟩
  intro k nonce keypair session hmem
  obtain ⟨call, request, now, response, entry, hborn, hnonce, hkey⟩ :=
    signed_of_reached hreach k nonce keypair session hmem
  obtain ⟨-, keypair', hkey', hpoint⟩ :=
    hprepared call request now response entry hborn
  rw [hkey] at hkey'
  injection hkey' with hsame
  subst hsame
  exact ⟨call, request, now, response, entry, hborn, hnonce, hpoint⟩

/-! ## A signer whose keys are all odd -/

/-- A symbolic point is odd when it starts with this mark. -/
def oddMark : Hash := hashOf 255

def isMarked (point : List Hash) : Bool := point.head? == some oddMark

def unmarked (point : List Hash) : List Hash :=
  if isMarked point then point.tail else point

/-- Every public key is the odd one of its pair; the zero tweak takes the
mark away. -/
def oddCrates : Crates symbolicTypes :=
  { symbolicCrates with
    fromPriv := fun key => oddMark :: key
    toKeypair := fun key => (oddMark :: key, 0)
    addXonlyTweak := fun pair tweak =>
      if tweak = 0 then .ok (unmarked pair.1, pair.2)
      else .error "tweaked key"
    derivePublicKey := fun program root =>
      .ok (unmarked (root ++ [program.evaluator]))
    intent := fun _ key =>
      .ok ⟨#v[key.userPubkey, unmarked (key.root ++ [key.program.evaluator])],
        none, key.program.evaluator, none⟩ }

def oddLaws : KeyLaws oddCrates where
  publicKey := Prod.fst
  xpubKey := id
  derivePub := fun root path => .ok (root ++ [path])
  isOdd := isMarked
  negate := fun point => if isMarked point then point.tail else oddMark :: point
  xOnly := unmarked
  addTweak := fun point tweak => if tweak = 0 then some point else none
  addTweak_zero := fun _ => rfl
  fromPriv_key := fun _ => rfl
  derive_commute := by
    intro root id derived h
    injection h with h
    exact ⟨root ++ [id], rfl, h⟩
  derivePublicKey_ok := by
    intro program root key h
    injection h with h
    exact ⟨root ++ [program.evaluator], rfl, h.symm⟩
  evenPublicKey_xOnly := by
    intro point
    show unmarked point = _
    unfold unmarked
    split
    · rfl
    · rfl
  addXonlyTweak_ok := by
    intro keypair tweak point h
    split at h
    · next hzero =>
        injection h with h
        refine ⟨(unmarked keypair.1, keypair.2), ?_, ?_⟩
        · show (if tweak = 0 then Except.ok (unmarked keypair.1, keypair.2)
            else _) = _
          rw [if_pos hzero]
        · rw [← h]
          unfold unmarked
          split
          · rfl
          · rfl
    · cases h

def oddSelf : ArkSigner symbolicTypes :=
  ⟨Symbolic.root, oddCrates.fromPriv Symbolic.root, []⟩

/-- A prepare under the odd root and the finish of its session. -/
def oddRun : List (Act symbolicTypes) :=
  [.prepare { Symbolic.prepareRequest 1 1 with
      key := ⟨⟨hashOf 1, [], []⟩, oddSelf.publicRoot, [hashOf 1]⟩ },
    .readClock 0, .reserve 0 0 [hashOf 5], .finish (Symbolic.finishRequest 5),
    .sign 1]

theorem finish_key_authorized_oddRun :
    ∃ nonce keypair session call request now response entry,
      .signed 1 nonce keypair session ∈ (signer oddCrates oddSelf).trace oddRun ∧
      .prepared call request now response entry
        ∈ (signer oddCrates oddSelf).trace oddRun ∧
      entry.nonce = nonce ∧
      oddLaws.publicKey keypair
        = getElem entry.intent.members 1 Nat.one_lt_two := by
  obtain ⟨nonce, keypair, session, hsigned⟩ : ∃ nonce keypair session,
      (signer oddCrates oddSelf).trace oddRun
        = ((signer oddCrates oddSelf).trace oddRun).take 2 ++
          .signed 1 nonce keypair session ::
            ((signer oddCrates oddSelf).trace oddRun).drop 3 :=
    ⟨_, _, _, rfl⟩
  have hmem : .signed 1 nonce keypair session
      ∈ (signer oddCrates oddSelf).trace oddRun := by
    rw [hsigned]
    exact List.mem_append_right _ List.mem_cons_self
  obtain ⟨call, request, now, response, entry, hprepared, hnonce, hpoint⟩ :=
    (finish_key_authorized oddCrates oddLaws (.ok []) Symbolic.root oddSelf rfl
      oddRun).2 1 nonce keypair session hmem
  exact ⟨nonce, keypair, session, call, request, now, response, entry, hmem,
    hprepared, hnonce, hpoint⟩

end SapioTee
