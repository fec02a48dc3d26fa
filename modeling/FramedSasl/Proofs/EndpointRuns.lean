import FramedSasl.Proofs.EndpointTurns
import FramedSasl.Proofs.ReadFaults
import FramedSasl.Proofs.SessionRuns
import FramedSasl.Proofs.StreamReading

/-! Calls on an endpoint in any order, by an owner that may also use the session and the limits
directly, with any bytes as those of the peer. What every such run keeps is `Endpoint.Valid`. From
it, what can go wrong: the peer breaks the protocol, or an offer or an init does not fit. -/

namespace FramedSasl

open Call

namespace Codec

/-- What each call on a codec keeps. Fragments that wait are never those of a list of mechanisms. -/
structure Valid (c : Codec) : Prop where
  limit_ge : minimumLimit ≤ c.limit
  limit_lt : c.limit < wordCount
  peerLimit_ge : minimumLimit ≤ c.peerLimit
  peerLimit_lt : c.peerLimit < wordCount
  unfinished : ∀ p, c.unfinished = some p → p.kind ≠ .mechanisms

variable {c : Codec}

theorem Valid.new : Codec.Valid {} where
  limit_ge := Nat.le_refl _
  limit_lt := by decide
  peerLimit_ge := Nat.le_refl _
  peerLimit_lt := by decide
  unfinished := nofun

theorem Valid.of_same {c' : Codec} (h : c.Valid) (hlimit : c'.limit = c.limit)
    (hpeerLimit : c'.peerLimit = c.peerLimit)
    (hunfinished : ∀ p, c'.unfinished = some p → p.kind ≠ .mechanisms) : c'.Valid where
  limit_ge := hlimit ▸ h.limit_ge
  limit_lt := hlimit ▸ h.limit_lt
  peerLimit_ge := hpeerLimit ▸ h.peerLimit_ge
  peerLimit_lt := hpeerLimit ▸ h.peerLimit_lt
  unfinished := hunfinished

theorem checkLimit_ok {current size : Nat} (h : c.checkLimit current size = .ok ()) :
    minimumLimit ≤ size ∧ c.started = false := by
  unfold checkLimit at h
  split at h
  · cases h
  · split at h
    · cases h
    · next hroom hfrozen => exact ⟨by omega, by simpa using hfrozen⟩

/-- A limit is refused and nothing changes, or it is a large one before any frames. -/
theorem setLimit_cases (c : Codec) (size : Nat) :
    (∃ fault, on c (setLimit size) = (.error fault, c)) ∨ c.started = false ∧
      minimumLimit ≤ size ∧ on c (setLimit size) = (.ok (), { c with limit := size }) := by
  simp only [setLimit, on_get_bind, on_ofExcept_bind, on_set]
  split
  · next fault _ => exact .inl ⟨fault, rfl⟩
  · next hcheck => exact .inr ⟨(checkLimit_ok hcheck).2, (checkLimit_ok hcheck).1, rfl⟩

theorem setPeerLimit_cases (c : Codec) (size : Nat) :
    (∃ fault, on c (setPeerLimit size) = (.error fault, c)) ∨ c.started = false ∧
      minimumLimit ≤ size ∧ on c (setPeerLimit size) = (.ok (), { c with peerLimit := size }) := by
  simp only [setPeerLimit, on_get_bind, on_ofExcept_bind, on_set]
  split
  · next fault _ => exact .inl ⟨fault, rfl⟩
  · next hcheck => exact .inr ⟨(checkLimit_ok hcheck).2, (checkLimit_ok hcheck).1, rfl⟩

theorem Valid.setLimit (h : c.Valid) (size : UInt32) :
    (on c (Codec.setLimit size.toNat)).2.Valid := by
  rcases setLimit_cases c size.toNat with ⟨fault, hrefused⟩ | ⟨-, hleast, hset⟩
  · rw [hrefused]
    exact h
  · rw [hset]
    exact ⟨hleast, size.toNat_lt, h.peerLimit_ge, h.peerLimit_lt, h.unfinished⟩

theorem Valid.setPeerLimit (h : c.Valid) (size : UInt32) :
    (on c (Codec.setPeerLimit size.toNat)).2.Valid := by
  rcases setPeerLimit_cases c size.toNat with ⟨fault, hrefused⟩ | ⟨-, hleast, hset⟩
  · rw [hrefused]
    exact h
  · rw [hset]
    exact ⟨h.limit_ge, h.limit_lt, hleast, size.toNat_lt, h.unfinished⟩

theorem cutFrame_error {limit : Nat} {stream : Bytes} {fault : Fault}
    (h : cutFrame limit stream = .error fault) : fault.kind.isProtocol = true := by
  unfold cutFrame at h
  repeat' split at h
  all_goals cases h
  all_goals rfl

end Codec

namespace Performative

variable {unfinished : Option Performative} {first next body : Performative} {fault : Fault}

theorem join_error (hfirst : first.kind ≠ .mechanisms) (h : first.join next = .error fault) :
    fault.kind.isProtocol = true := by
  rw [join_eq] at h
  split at h
  · next cause hclash =>
    cases h
    unfold clash? at hclash
    repeat' split at hclash
    all_goals cases hclash
    all_goals first | rfl | exact absurd rfl hfirst
  · cases h

theorem joinTo_error (hunfinished : ∀ p, unfinished = some p → p.kind ≠ .mechanisms)
    (h : joinTo unfinished next = .error fault) : fault.kind.isProtocol = true := by
  cases unfinished with
  | none => cases h
  | some first => exact join_error (hunfinished first rfl) h

theorem kind_of_join (h : first.join next = .ok body) : body.kind = next.kind := by
  cases first <;> cases next <;> simp only [join] at h
  all_goals repeat' split at h
  all_goals cases h
  all_goals rfl

theorem kind_of_joinTo (h : joinTo unfinished next = .ok body) : body.kind = next.kind := by
  cases unfinished with
  | none => cases h; rfl
  | some first => exact kind_of_join h

end Performative

namespace Codec

variable {c : Codec}

theorem Valid.poll (h : c.Valid) :
    c.poll.codec.Valid ∧ ∀ fault, c.poll.result = .error fault → fault.kind.isProtocol = true := by
  fun_induction Codec.poll c with
  | case1 c fault hcut =>
    refine ⟨h, fun cause hcause => ?_⟩
    cases hcause
    exact cutFrame_error hcut
  | case2 c hcut =>
    refine ⟨h, fun cause hcause => ?_⟩
    cases hcause
  | case3 c bytes rest hcut fault hparse =>
    refine ⟨h.of_same rfl rfl h.unfinished, fun cause hcause => ?_⟩
    cases hcause
    rw [Frame.parse_error hparse]
    rfl
  | case4 c bytes rest hcut frame hparse _ _ fault hjoin =>
    refine ⟨h.of_same rfl rfl h.unfinished, fun cause hcause => ?_⟩
    cases hcause
    exact Performative.joinTo_error h.unfinished hjoin
  | case5 c bytes rest hcut frame hparse _ _ body hjoin hmore later ih =>
    refine ih (h.of_same rfl rfl fun p hp => ?_)
    cases hp
    rw [Performative.kind_of_joinTo hjoin]
    exact Frame.more_of_parse hparse hmore
  | case6 c bytes rest hcut frame hparse _ _ body hjoin hmore =>
    refine ⟨h.of_same rfl rfl fun p hp => ?_, fun cause hcause => ?_⟩
    · cases hp
    · cases hcause

end Codec

namespace Endpoint

/-- A call on an endpoint, on its session or on its limits. -/
inductive Act where
  | session (act : Session.Act)
  | setLimit (size : UInt32)
  | setPeerLimit (size : UInt32)
  | output
  | input (data : Bytes)

def perform (e : Endpoint) : Act → Endpoint
  | .session act => { e with session := (e.session.perform act).1 }
  | .setLimit size => (on e (inCodec (Codec.setLimit size.toNat))).2
  | .setPeerLimit size => (on e (inCodec (Codec.setPeerLimit size.toNat))).2
  | .output => e.output.endpoint
  | .input data => (e.input data).endpoint

/-- What a new endpoint leads to. -/
def run (name : Bytes) (acts : List Act) : Endpoint := acts.foldl perform { name }

/-- What every call keeps. Before the peer's header is in, no bytes of frames are. -/
structure Valid (e : Endpoint) : Prop where
  session : e.session = {} ∨ ∃ side place, e.session.At side place
  codec : e.codec.Valid
  header : e.headerMatched ≤ protocolHeader.length
  early : e.headerMatched < protocolHeader.length → e.codec.buffer = []

variable {e : Endpoint} {side : Role} {place : Place}

theorem on_inCodec {α : Type} (e : Endpoint) (call : Call Codec α) :
    on e (inCodec call) = ((on e.codec call).1, { e with codec := (on e.codec call).2 }) :=
  rfl

theorem guarded_cases {α : Type} (e : Endpoint) (traffic : Traffic) (call : Turn α) :
    (e.guarded traffic call).endpoint = e ∨
      e.failure = none ∧ ∃ side, e.session.role = some side := by
  unfold guarded
  split
  · exact .inl rfl
  · next hfailure =>
    split
    · exact .inl rfl
    · next hrole => exact .inr ⟨hfailure, Option.ne_none_iff_exists'.1 hrole⟩

theorem Valid.at_of_role (h : e.Valid) (hrole : e.session.role = some side) :
    ∃ place, e.session.At side place := by
  rcases h.session with hnew | ⟨side', place, hat⟩
  · rw [hnew] at hrole
    cases hrole
  · have hside := hat.stands.role.symm.trans hrole
    cases hside
    exact ⟨place, hat⟩

/-! ### Out -/

/-- A turn goes well, or what is due does not fit. -/
theorem Valid.output_of_at (h : e.Valid) (hat : e.session.At side place)
    (hfailure : e.failure = none) :
    e.output.endpoint.Valid ∧ (∃ next, e.output.endpoint.session.At side next) ∧
      ∀ fault, e.output.result = .error fault → e.Overflows fault := by
  have hrole := hat.stands.role
  rcases hat.emits with hrests | ⟨p, s, next, hemits, -, hnext⟩
  · obtain ⟨hresult, hendpoint⟩ := output_rests hfailure hrole hrests
    rw [hresult, hendpoint]
    refine ⟨⟨h.session, h.codec, h.header, h.early⟩, ⟨place, hat⟩, fun cause hcause => ?_⟩
    cases hcause
  · have hcodec : Codec.Valid { e.codec with started := true } :=
      h.codec.of_same rfl rfl h.codec.unfinished
    rcases hframes : p.fragments e.codec.peerLimit with fault | frames
    · obtain ⟨hresult, hendpoint⟩ := output_refused hfailure hrole hemits.due hframes
      rw [hresult, hendpoint]
      refine ⟨⟨.inr ⟨side, next, hnext⟩, hcodec, h.header, h.early⟩, ⟨next, hnext⟩,
        fun cause hcause => ?_⟩
      cases hcause
      have hoversized := Performative.fragments_error hframes
      exact ⟨p, s, hemits.due, hoversized.sender h.codec.peerLimit_ge, hoversized⟩
    · obtain ⟨hresult, hendpoint⟩ :=
        output_emits hfailure hrole hemits.due hemits.last hframes
      rw [hresult, hendpoint]
      refine ⟨⟨.inr ⟨side, next, hnext⟩, hcodec, h.header, h.early⟩, ⟨next, hnext⟩,
        fun cause hcause => ?_⟩
      cases hcause

/-- Behind an output that is refused the endpoint has failed; one that goes well comes from an
endpoint that has not, and the header is out. What comes in is not touched. -/
theorem Valid.output_cases (h : e.Valid) (hrole : e.session.role = some side) :
    e.output.endpoint.codec.buffer = e.codec.buffer ∧
      e.output.endpoint.headerMatched = e.headerMatched ∧
        (∀ fault, e.output.result = .error fault → e.output.endpoint.failure = some fault) ∧
          ∀ bytes, e.output.result = .ok bytes →
            e.failure = none ∧ e.output.endpoint.headerSent = true := by
  rcases hfailure : e.failure with _ | cause
  · obtain ⟨place, hat⟩ := h.at_of_role hrole
    rcases hat.emits with hrests | ⟨p, s, next, hemits, -⟩
    · obtain ⟨hresult, hendpoint⟩ := output_rests hfailure hrole hrests
      simp [hresult, hendpoint]
    · rcases hframes : p.fragments e.codec.peerLimit with fault | frames
      · obtain ⟨hresult, hendpoint⟩ := output_refused hfailure hrole hemits.due hframes
        simp [hresult, hendpoint]
      · obtain ⟨hresult, hendpoint⟩ :=
          output_emits hfailure hrole hemits.due hemits.last hframes
        simp [hresult, hendpoint]
  · simp [output_of_failure hfailure, hfailure]

theorem Valid.output (h : e.Valid) : e.output.endpoint.Valid := by
  rcases guarded_cases e .output _ with hsame | ⟨hfailure, side, hrole⟩
  · rw [Endpoint.output, hsame]
    exact h
  · obtain ⟨place, hat⟩ := h.at_of_role hrole
    exact (h.output_of_at hat hfailure).1

/-! ### In -/

/-- The header is matched forward, and no bytes are left over before its end. -/
theorem matchHeader_cases (matched : Nat) (data : Bytes) :
    matched ≤ (matchHeader matched data).1 ∧
      (matched ≤ protocolHeader.length → (matchHeader matched data).1 ≤ protocolHeader.length) ∧
      (∀ fault, (matchHeader matched data).2 = .error fault → fault.kind = .headerMismatch) ∧
      (∀ rest, (matchHeader matched data).2 = .ok rest →
        (matchHeader matched data).1 < protocolHeader.length → rest = []) := by
  fun_induction matchHeader matched data with
  | case1 matched =>
    refine ⟨Nat.le_refl _, id, fun fault hfault => ?_, fun rest hrest _ => ?_⟩
    · cases hfault
    · cases hrest
      rfl
  | case2 matched b rest hbehind =>
    refine ⟨Nat.le_refl _, id, fun fault hfault => ?_, fun _ _ hlt => ?_⟩
    · cases hfault
    · have := List.getElem?_eq_none_iff.1 hbehind
      dsimp only at hlt
      omega
  | case3 matched rest expected hexpected ih =>
    obtain ⟨hle, hbound, hfault, hrest⟩ := ih
    refine ⟨by omega, fun _ => hbound ?_, hfault, hrest⟩
    obtain ⟨hlt, -⟩ := List.getElem?_eq_some_iff.1 hexpected
    exact hlt
  | case4 matched b rest expected hexpected hne =>
    refine ⟨Nat.le_refl _, id, fun fault hfault => ?_, fun rest hrest _ => ?_⟩
    · cases hfault
      rfl
    · cases hrest

theorem absorb_length_le (e : Endpoint) :
    (absorb e).endpoint.codec.buffer.length ≤ e.codec.buffer.length := by
  have hpoll := e.codec.poll_length_le
  fun_induction absorb e with
  | case1 => exact hpoll
  | case2 => exact hpoll
  | case3 => exact hpoll
  | case4 e polled e' arrived p hp session hs later ih =>
    exact Nat.le_trans (ih (Codec.poll_length_le _)) hpoll

/-- What comes in is taken in, or breaks the protocol. -/
theorem absorb_valid (e : Endpoint) (hat : ∃ place, e.session.At side place)
    (hcodec : e.codec.Valid) :
    (∃ place, (absorb e).endpoint.session.At side place) ∧ (absorb e).endpoint.codec.Valid ∧
      (absorb e).endpoint.headerMatched = e.headerMatched ∧
      ∀ fault, (absorb e).result = .error fault → fault.kind.isProtocol = true := by
  fun_induction absorb e with
  | case1 e polled e' arrived fault hfault =>
    refine ⟨hat, hcodec.poll.1, rfl, fun cause hcause => ?_⟩
    cases hcause
    exact hcodec.poll.2 fault hfault
  | case2 e polled e' hnone =>
    refine ⟨hat, hcodec.poll.1, rfl, fun cause hcause => ?_⟩
    cases hcause
  | case3 e polled e' arrived p hp fault session hs =>
    obtain ⟨place, hplace⟩ := hat
    obtain ⟨hkind, rfl⟩ := Session.accept_error hplace.stands.role hs
    refine ⟨⟨place, hplace⟩, hcodec.poll.1, rfl, fun cause hcause => ?_⟩
    cases hcause
    exact hkind
  | case4 e polled e' arrived p hp session hs later ih =>
    obtain ⟨place, hplace⟩ := hat
    obtain ⟨hsender, ⟨next, hleads⟩, hcontent⟩ := hplace.of_accepts hs
    obtain ⟨s, haccepts, hnext⟩ := hplace.accepts hsender hleads hcontent
    cases hs.symm.trans haccepts.accepted
    obtain ⟨hstands, hvalid, hmatched, hfaults⟩ := ih ⟨next, hnext⟩ hcodec.poll.1
    refine ⟨hstands, hvalid, hmatched, fun fault hfault => ?_⟩
    rcases hlater : later.result with cause | count
    · rw [hlater] at hfault
      cases hfault
      exact hfaults fault hlater
    · rw [hlater] at hfault
      cases hfault

theorem Valid.input_of_at (h : e.Valid) (hat : e.session.At side place)
    (hfailure : e.failure = none) (data : Bytes) :
    (e.input data).endpoint.Valid ∧ (∃ next, (e.input data).endpoint.session.At side next) ∧
      ∀ fault, (e.input data).result = .error fault → fault.kind.isProtocol = true := by
  obtain ⟨hmono, hbound, hmismatch, hleft⟩ := matchHeader_cases e.headerMatched data
  rw [Endpoint.input, guarded_eq hfailure hat.stands.role]
  rcases hmatch : matchHeader e.headerMatched data with ⟨matched, fault | rest⟩
  · rw [hmatch] at hmono hbound hmismatch
    dsimp only at hmono hbound hmismatch ⊢
    refine ⟨⟨h.session, h.codec, hbound h.header,
      fun hlt => h.early (Nat.lt_of_le_of_lt hmono hlt)⟩, ⟨place, hat⟩, fun cause hcause => ?_⟩
    cases hcause
    rw [hmismatch fault rfl]
    rfl
  · rw [hmatch] at hmono hbound hleft
    dsimp only at hmono hbound hleft ⊢
    have hfed : (e.codec.feed rest).Valid := h.codec.of_same rfl rfl h.codec.unfinished
    have habsorb := absorb_valid { e with headerMatched := matched, codec := e.codec.feed rest }
      ⟨place, hat⟩ hfed
    have hlength := absorb_length_le { e with headerMatched := matched, codec := e.codec.feed rest }
    generalize absorb { e with headerMatched := matched, codec := e.codec.feed rest } = absorbed
      at *
    obtain ⟨hstands, hvalid, hmatched, hfaults⟩ := habsorb
    have hearly : absorbed.endpoint.headerMatched < protocolHeader.length →
        absorbed.endpoint.codec.buffer = [] := by
      intro hlt
      rw [hmatched] at hlt
      rw [← List.length_eq_zero_iff]
      simp only [hleft rest rfl hlt, Codec.feed, h.early (Nat.lt_of_le_of_lt hmono hlt),
        List.append_nil, List.length_nil] at hlength
      exact Nat.le_zero.1 hlength
    have habsorbed : absorbed.endpoint.Valid :=
      ⟨.inr ⟨side, hstands⟩, hvalid, hmatched ▸ hbound h.header, hearly⟩
    rcases hresult : absorbed.result with fault | count
    · exact ⟨habsorbed, hstands, fun cause hcause => hfaults cause hcause⟩
    · dsimp only
      obtain ⟨reported, hconclude⟩ := conclude_endpoint absorbed.endpoint count absorbed.events
      rw [conclude_result, hconclude]
      refine ⟨⟨habsorbed.session, habsorbed.codec, habsorbed.header, habsorbed.early⟩, hstands,
        fun cause hcause => ?_⟩
      cases hcause

theorem Valid.input (h : e.Valid) (data : Bytes) : (e.input data).endpoint.Valid := by
  rcases guarded_cases e .input _ with hsame | ⟨hfailure, side, hrole⟩
  · rw [Endpoint.input, hsame]
    exact h
  · obtain ⟨place, hat⟩ := h.at_of_role hrole
    exact (h.input_of_at hat hfailure data).1

/-! ### Faults -/

theorem Valid.exists_at (h : e.Valid) (hrole : e.session.role ≠ none) :
    ∃ side place, e.session.At side place := by
  obtain ⟨side, hside⟩ := Option.ne_none_iff_exists'.1 hrole
  exact ⟨side, h.at_of_role hside⟩

theorem Valid.input_faults (h : e.Valid) (hrole : e.session.role ≠ none) {data : Bytes}
    {fault : Fault} (hfault : (e.input data).result = .error fault) :
    e.failure = some fault ∨ fault.kind.isProtocol = true := by
  rcases hfailure : e.failure with _ | cause
  · obtain ⟨side, place, hat⟩ := h.exists_at hrole
    exact .inr ((h.input_of_at hat hfailure data).2.2 fault hfault)
  · rw [input_of_failure hfailure] at hfault
    cases hfault
    exact .inl rfl

theorem Valid.output_faults (h : e.Valid) (hrole : e.session.role ≠ none) {fault : Fault}
    (hfault : e.output.result = .error fault) :
    e.failure = some fault ∨ fault.kind = .frameTooLarge ∧ e.Overflows fault := by
  rcases hfailure : e.failure with _ | cause
  · obtain ⟨side, place, hat⟩ := h.exists_at hrole
    obtain ⟨p, s, hdue, hkind, hoversized⟩ := (h.output_of_at hat hfailure).2.2 fault hfault
    exact .inr ⟨hoversized.kind, p, s, hdue, hkind, hoversized⟩
  · rw [output_of_failure hfailure] at hfault
    cases hfault
    exact .inl rfl

/-- A session that has a role says what is due. -/
theorem Valid.exists_due (h : e.Valid) (hrole : e.session.role ≠ none) :
    ∃ due, (on e.session Session.nextOutbound).1 = .ok due := by
  obtain ⟨side, place, hat⟩ := h.exists_at hrole
  rcases hat.emits with hrests | ⟨p, s, next, hemits, -⟩
  · exact ⟨none, by rw [hrests]⟩
  · exact ⟨some p, by rw [hemits.due]⟩

theorem Valid.accept_faults (h : e.Valid) (hrole : e.session.role ≠ none) {p : Performative}
    {fault : Fault} (hfault : (on e.session (Session.accept p)).1 = .error fault) :
    fault.kind.isProtocol = true := by
  obtain ⟨side, place, hat⟩ := h.exists_at hrole
  exact (Session.accept_error hat.stands.role (Prod.ext hfault rfl)).1

/-- Only an offer or an init can be too large for a limit. -/
theorem exists_encode {p : Performative} {c : Codec} (hmechanisms : p.kind ≠ .mechanisms)
    (hinit : p.kind ≠ .init) (hlimit : minimumLimit ≤ c.peerLimit) :
    ∃ frames, (on c (Codec.encode p)).1 = .ok frames := by
  rw [Codec.on_encode]
  rcases hframes : p.fragments c.peerLimit with fault | frames
  · rcases (Performative.fragments_error hframes).sender hlimit with hkind | hkind
    · exact absurd hkind hmechanisms
    · exact absurd hkind hinit
  · exact ⟨frames, rfl⟩

/-! ### Runs -/

theorem Valid.inSession (h : e.Valid) (act : Session.Act) :
    Valid { e with session := (e.session.perform act).1 } where
  session := by
    rcases h.session with hnew | ⟨side, place, hat⟩
    · rw [hnew]
      rcases Session.perform_unassigned act with hsame | ⟨side, hassigned⟩
      · exact .inl (by rw [hsame])
      · exact .inr ⟨side, .opening, by rw [hassigned]; exact .assigned side⟩
    · obtain ⟨next, hnext⟩ := hat.perform act
      exact .inr ⟨side, next, hnext⟩
  codec := h.codec
  header := h.header
  early := h.early

theorem buffer_setLimit (c : Codec) (size : Nat) :
    (on c (Codec.setLimit size)).2.buffer = c.buffer := by
  rcases c.setLimit_cases size with ⟨fault, hrefused⟩ | ⟨-, -, hset⟩
  · rw [hrefused]
  · rw [hset]

theorem buffer_setPeerLimit (c : Codec) (size : Nat) :
    (on c (Codec.setPeerLimit size)).2.buffer = c.buffer := by
  rcases c.setPeerLimit_cases size with ⟨fault, hrefused⟩ | ⟨-, -, hset⟩
  · rw [hrefused]
  · rw [hset]

theorem Valid.perform (h : e.Valid) (act : Act) : (e.perform act).Valid := by
  cases act with
  | session act => exact h.inSession act
  | setLimit size =>
    refine ⟨h.session, h.codec.setLimit size, h.header, fun hlt => ?_⟩
    exact (buffer_setLimit _ _).trans (h.early hlt)
  | setPeerLimit size =>
    refine ⟨h.session, h.codec.setPeerLimit size, h.header, fun hlt => ?_⟩
    exact (buffer_setPeerLimit _ _).trans (h.early hlt)
  | output => exact h.output
  | input data => exact h.input data

/-- A role is there to stay. -/
theorem Valid.role_perform (h : e.Valid) (hrole : e.session.role = some side) (act : Act) :
    (e.perform act).session.role = some side := by
  obtain ⟨place, hat⟩ := h.at_of_role hrole
  cases act with
  | session act =>
    obtain ⟨next, hnext⟩ := hat.perform act
    exact hnext.stands.role
  | setLimit size => exact hrole
  | setPeerLimit size => exact hrole
  | output =>
    rcases guarded_cases e .output _ with hsame | ⟨hfailure, -⟩
    · rw [Endpoint.perform, Endpoint.output, hsame]
      exact hrole
    · obtain ⟨-, ⟨next, hnext⟩, -⟩ := h.output_of_at hat hfailure
      exact hnext.stands.role
  | input data =>
    rcases guarded_cases e .input _ with hsame | ⟨hfailure, -⟩
    · rw [Endpoint.perform, Endpoint.input, hsame]
      exact hrole
    · obtain ⟨-, ⟨next, hnext⟩, -⟩ := h.input_of_at hat hfailure data
      exact hnext.stands.role

theorem Valid.new (name : Bytes) : Valid { name } where
  session := .inl rfl
  codec := .new
  header := Nat.zero_le _
  early _ := rfl

theorem run_concat (name : Bytes) (acts : List Act) (act : Act) :
    run name (acts ++ [act]) = (run name acts).perform act := by
  rw [run, List.foldl_append]
  rfl

theorem run_valid (name : Bytes) (acts : List Act) : (run name acts).Valid := by
  have hfold : ∀ e : Endpoint, e.Valid → (acts.foldl Endpoint.perform e).Valid := by
    induction acts with
    | nil => exact fun e h => h
    | cons act acts ih => exact fun e h => ih _ (h.perform act)
  exact hfold _ (.new name)

/-- After any calls and any bytes of the peer: a new fault of `input` is the peer's, and one of
`output` is that an offer or an init does not fit. So a session that has a role never refuses to
say what is due and never sees a performative of its own side, fragments of mechanisms are never
joined, and all other performatives fit every limit, whatever their payload. -/
theorem run_faults (name : Bytes) (acts : List Act) :
    let e := run name acts
    (∀ data fault, (e.input data).result = .error fault → e.session.role ≠ none →
      e.failure = some fault ∨ fault.kind.isProtocol = true) ∧
      (∀ fault, e.output.result = .error fault → e.session.role ≠ none →
        e.failure = some fault ∨ fault.kind = .frameTooLarge ∧ e.Overflows fault) ∧
      (e.session.role ≠ none → ∃ due, (on e.session Session.nextOutbound).1 = .ok due) ∧
      (∀ p fault, (on e.session (Session.accept p)).1 = .error fault → e.session.role ≠ none →
        fault.kind.isProtocol = true) ∧
      (∀ first next, e.codec.unfinished = some first →
        first.join next ≠ .error (.codec .mechanismsFragments)) ∧
      minimumLimit ≤ e.codec.peerLimit ∧
      ∀ (p : Performative) (c : Codec), p.kind ≠ .mechanisms → p.kind ≠ .init →
        minimumLimit ≤ c.peerLimit → ∃ frames, (on c (Codec.encode p)).1 = .ok frames := by
  intro e
  have hvalid : e.Valid := run_valid name acts
  refine ⟨fun data fault hfault hrole => hvalid.input_faults hrole hfault,
    fun fault hfault hrole => hvalid.output_faults hrole hfault, hvalid.exists_due,
    fun p fault hfault hrole => hvalid.accept_faults hrole hfault,
    fun first next hfirst hjoin => ?_, hvalid.codec.peerLimit_ge, fun p c => exists_encode⟩
  cases Performative.join_error (hvalid.codec.unfinished first hfirst) hjoin

end Endpoint

end FramedSasl
