import FramedSasl.Proofs.ChunkedInput
import FramedSasl.Proofs.DeclaredOutcome
import FramedSasl.Proofs.FrameLimits

/-! The frame limit of a run. A variable that starts with a number, as `Spells` says, takes the
place of the scenario's limit. Both sides set it for both directions before any bytes move, and
nothing that a negotiation does changes it again (`KeepsLimits`). But of a number that 32 bits do
not hold only the low 32 bits are taken. -/

namespace FramedSasl

open Call

namespace Settings

/-! ### The number that a variable gives -/

/-- A sign, or none, in front of a number. -/
inductive Signed : Bytes → Nat → Int → Prop
  | bare (n : Nat) : Signed [] n n
  | plus (n : Nat) : Signed (text "+") n n
  | minus (n : Nat) : Signed (text "-") n (-n)

/-- Behind blanks the integer stands in decimal digits, as many as there are. -/
def Spells (bytes : Bytes) (v : Int) : Prop :=
  ∃ blanks sign digits rest, bytes = blanks ++ (sign ++ (digits ++ rest)) ∧
    (∀ b ∈ blanks, isBlank b = true) ∧ Signed sign (decimalValue digits) v ∧ digits ≠ [] ∧
    (∀ d ∈ digits, isDecimalDigit d = true) ∧
    ∀ b, rest.head? = some b → isDecimalDigit b = false

/-- 64 bits hold it. -/
def Fits64 (v : Int) : Prop := -0x8000000000000000 ≤ v ∧ v < 0x8000000000000000

instance (v : Int) : Decidable (Fits64 v) := inferInstanceAs (Decidable (_ ∧ _))

/-- Whether a minus stands in front, and what lies behind the sign. -/
def afterSign : Bytes → Bool × Bytes
  | 45 :: rest => (true, rest)
  | 43 :: rest => (false, rest)
  | rest => (false, rest)

def withSign (negative : Bool) (n : Nat) : Int := if negative then -n else n

theorem leadingInteger?_eq (bytes : Bytes) : leadingInteger? bytes =
    let (negative, rest) := afterSign (bytes.dropWhile isBlank)
    let digits := rest.takeWhile isDecimalDigit
    if digits ≠ [] ∧ Fits64 (withSign negative (decimalValue digits)) then
      some (withSign negative (decimalValue digits))
    else none := rfl

variable {bytes blanks sign digits rest : Bytes} {v : Int}

theorem exists_sign (bytes : Bytes) :
    ∃ sign, bytes = sign ++ (afterSign bytes).2 ∧
      ∀ n, Signed sign n (withSign (afterSign bytes).1 n) := by
  unfold afterSign
  split
  · exact ⟨text "-", rfl, .minus⟩
  · exact ⟨text "+", rfl, .plus⟩
  · exact ⟨[], rfl, .bare⟩

theorem leadingInteger?_sound (h : leadingInteger? bytes = some v) : Spells bytes v ∧ Fits64 v := by
  rw [leadingInteger?_eq] at h
  dsimp only at h
  split at h
  · next hdigits =>
    cases h
    obtain ⟨hsome, hfits⟩ := hdigits
    obtain ⟨sign, hbehind, hsigned⟩ := exists_sign (bytes.dropWhile isBlank)
    generalize afterSign (bytes.dropWhile isBlank) = split at *
    refine ⟨⟨bytes.takeWhile isBlank, sign, split.2.takeWhile isDecimalDigit,
      split.2.dropWhile isDecimalDigit, ?_, List.all_eq_true.1 List.all_takeWhile, hsigned _, hsome,
      List.all_eq_true.1 List.all_takeWhile, ?_⟩, hfits⟩
    · rw [List.takeWhile_append_dropWhile, ← hbehind, List.takeWhile_append_dropWhile]
    · intro b hb
      have hnot := List.head?_dropWhile_not isDecimalDigit split.2
      rw [hb] at hnot
      simpa using hnot
  · cases h

theorem takeWhile_digits (hdigits : ∀ d ∈ digits, isDecimalDigit d = true)
    (hrest : ∀ b, rest.head? = some b → isDecimalDigit b = false) :
    (digits ++ rest).takeWhile isDecimalDigit = digits := by
  rw [List.takeWhile_append_of_pos hdigits]
  have hstop : rest.takeWhile isDecimalDigit = [] := by
    cases rest with
    | nil => rfl
    | cons b rest => simp [hrest b rfl]
  rw [hstop, List.append_nil]

/-- A digit is neither a blank nor a sign. -/
theorem digit_cases {d : UInt8} (h : isDecimalDigit d = true) (rest : Bytes) :
    isBlank d = false ∧ afterSign (d :: rest) = (false, d :: rest) := by
  simp only [isDecimalDigit, Bool.and_eq_true, decide_eq_true_eq, UInt8.le_iff_toNat_le] at h
  have hleast : 48 ≤ d.toNat := h.1
  constructor
  · refine Bool.eq_false_iff.2 fun hblank => ?_
    simp only [isBlank, Bool.or_eq_true, Bool.and_eq_true, decide_eq_true_eq,
      UInt8.le_iff_toNat_le] at hblank
    rcases hblank with rfl | ⟨-, hmost⟩
    · exact absurd hleast (by decide)
    · exact absurd (Nat.le_trans hleast hmost) (by decide)
  · unfold afterSign
    split
    · next hminus =>
      cases hminus
      exact absurd hleast (by decide)
    · next hplus =>
      cases hplus
      exact absurd hleast (by decide)
    · rfl

theorem leadingInteger?_of_digits (negative : Bool)
    (hafter : afterSign (bytes.dropWhile isBlank) = (negative, digits ++ rest))
    (htake : (digits ++ rest).takeWhile isDecimalDigit = digits) (hsome : digits ≠ [])
    (hfits : Fits64 (withSign negative (decimalValue digits))) :
    leadingInteger? bytes = some (withSign negative (decimalValue digits)) := by
  rw [leadingInteger?_eq, hafter]
  dsimp only
  rw [htake, if_pos ⟨hsome, hfits⟩]

theorem leadingInteger?_complete (h : Spells bytes v) (hfits : Fits64 v) :
    leadingInteger? bytes = some v := by
  obtain ⟨blanks, sign, digits, rest, rfl, hblanks, hsigned, hsome, hdigits, hrest⟩ := h
  have htake := takeWhile_digits hdigits hrest
  have hbehind : (blanks ++ (sign ++ (digits ++ rest))).dropWhile isBlank =
      (sign ++ (digits ++ rest)).dropWhile isBlank := List.dropWhile_append_of_pos hblanks
  generalize hn : decimalValue digits = n at hsigned
  cases hsigned with
  | bare =>
    obtain ⟨d, ds, rfl⟩ := List.exists_cons_of_ne_nil hsome
    obtain ⟨hblank, hunsigned⟩ := digit_cases (hdigits d List.mem_cons_self) (ds ++ rest)
    rw [← hn] at hfits ⊢
    refine leadingInteger?_of_digits false ?_ htake hsome hfits
    rw [hbehind]
    exact (congrArg afterSign (List.dropWhile_cons_of_neg (by simp [hblank]))).trans hunsigned
  | plus =>
    rw [← hn] at hfits ⊢
    refine leadingInteger?_of_digits false ?_ htake hsome hfits
    rw [hbehind]
    rfl
  | minus =>
    rw [← hn] at hfits ⊢
    refine leadingInteger?_of_digits true ?_ htake hsome hfits
    rw [hbehind]
    rfl

theorem leadingInteger?_eq_some : leadingInteger? bytes = some v ↔ Spells bytes v ∧ Fits64 v :=
  ⟨leadingInteger?_sound, fun h => leadingInteger?_complete h.1 h.2⟩

/-! ### The limit that it asks for -/

/-- The variable gives a number that is not negative. -/
def Asks (s : Settings) (n : Nat) : Prop :=
  ∃ bytes, s.frameLimit = some bytes ∧ Spells bytes n ∧ Fits64 n

variable {s : Settings} {n : Nat}

theorem asks_iff :
    s.Asks n ↔ ∃ bytes, s.frameLimit = some bytes ∧ leadingInteger? bytes = some (n : Int) := by
  simp only [leadingInteger?_eq_some, Asks]

/-- Of the number that is asked for, the low 32 bits count, and nothing is said about the rest. -/
theorem Asks.limit (h : s.Asks n) (fallback : Nat) : s.limit fallback = (n % wordCount, []) := by
  obtain ⟨bytes, hset, hread⟩ := asks_iff.1 h
  have hsome : bytes ≠ [] := by
    rintro rfl
    cases hread
  have hgiven : given s.frameLimit = some bytes := by simp [given, hset, hsome]
  unfold Settings.limit
  simp only [hgiven, hread]
  rw [if_neg (Int.not_lt.2 (Int.natCast_nonneg n)), Int.toNat_natCast]

theorem Asks.unique {m : Nat} (h : s.Asks n) (h' : s.Asks m) : n = m := by
  obtain ⟨bytes, hset, hread⟩ := asks_iff.1 h
  obtain ⟨bytes', hset', hread'⟩ := asks_iff.1 h'
  cases hset.symm.trans hset'
  exact Int.ofNat_inj.1 (Option.some.inj (hread.symm.trans hread'))

theorem limit_of_not_asks (h : ∀ n, ¬ s.Asks n) (fallback : Nat) :
    (s.limit fallback).1 = fallback := by
  unfold Settings.limit
  split
  · rfl
  · next bytes hgiven =>
    split
    · rfl
    · next value hread =>
      split
      · rfl
      · next hnat =>
        obtain ⟨n, rfl⟩ := Int.eq_ofNat_of_zero_le (Int.not_lt.1 hnat)
        have hset := (Option.filter_eq_some_iff.1 hgiven).1
        exact absurd (asks_iff.2 ⟨bytes, hset, hread⟩) (h n)

end Settings

/-! ### The limits that a negotiation sets -/

/-- The limit for frames in and that for frames out. -/
def Codec.limits (c : Codec) : Nat × Nat := (c.limit, c.peerLimit)

namespace Endpoint

theorem drain_limits (e : Endpoint) : (drain e).endpoint.codec.limits = e.codec.limits := by
  fun_induction drain e with
  | case1 e fault s hdue | case2 e s hdue => rfl
  | case3 e p s hdue fault c hencode =>
    rw [Codec.on_encode] at hencode
    cases congrArg Prod.snd hencode
    rfl
  | case4 e p s hdue frames c hencode later ih =>
    rw [Codec.on_encode] at hencode
    cases congrArg Prod.snd hencode
    exact ih

theorem conclude_limits {α : Type} (e : Endpoint) (answer : α) (events : List Event) :
    (e.conclude answer events).endpoint.codec.limits = e.codec.limits := by
  rw [conclude_reported]

theorem guarded_limits {α : Type} {e : Endpoint} {traffic : Traffic} {call : Turn α}
    (h : call.endpoint.codec.limits = e.codec.limits) :
    (e.guarded traffic call).endpoint.codec.limits = e.codec.limits := by
  unfold guarded
  split
  · rfl
  · split
    · rfl
    · exact h

theorem output_limits (e : Endpoint) : e.output.endpoint.codec.limits = e.codec.limits := by
  have hdrain := drain_limits { e with headerSent := true }
  refine guarded_limits ?_
  dsimp only
  split
  · exact hdrain
  · rw [conclude_limits, hdrain]

theorem poll_limits (c : Codec) : c.poll.codec.limits = c.limits := by
  obtain ⟨hlimit, hpeerLimit, -⟩ := c.poll_within
  rw [Codec.limits, hlimit, hpeerLimit]
  rfl

theorem absorb_limits (e : Endpoint) : (absorb e).endpoint.codec.limits = e.codec.limits := by
  have hpoll := poll_limits e.codec
  induction e using absorb_induction with
  | breaks e fault hresult =>
    rw [absorb_of_error hresult]
    exact hpoll
  | waits e hresult =>
    rw [absorb_of_none hresult]
    exact hpoll
  | refuses e p fault s hresult haccept =>
    rw [absorb_of_refused hresult haccept]
    exact hpoll
  | takes e p s hresult haccept ih =>
    rw [absorb_of_some hresult haccept]
    exact (ih (poll_limits _)).trans hpoll

theorem input_limits (e : Endpoint) (data : Bytes) :
    (e.input data).endpoint.codec.limits = e.codec.limits := by
  refine guarded_limits ?_
  rcases matchHeader e.headerMatched data with ⟨matched, fault | rest⟩
  · rfl
  · have habsorb :=
      absorb_limits { e with headerMatched := matched, codec := e.codec.feed rest }
    dsimp only
    split
    · exact habsorb
    · rw [conclude_limits, habsorb]
      rfl

end Endpoint

namespace Pair

/-- The limits of both sides. -/
def limits (p : Pair) : (Nat × Nat) × Nat × Nat := (p.client.codec.limits, p.server.codec.limits)

/-- A call that leaves the limits. -/
def KeepsLimits {α : Type} (call : Call Pair α) : Prop := ∀ p, (on p call).2.limits = p.limits

namespace KeepsLimits

variable {α β : Type} {call : Call Pair α} {next : α → Call Pair β}

theorem pure (a : α) : KeepsLimits (Pure.pure a) := fun _ => rfl

theorem get_bind {next : Pair → Call Pair β} (h : ∀ p, KeepsLimits (next p)) :
    KeepsLimits (get >>= next) := fun p => h p p

theorem bind (h : KeepsLimits call) (hnext : ∀ a, KeepsLimits (next a)) :
    KeepsLimits (call >>= next) := by
  intro p
  rw [on_bind]
  have hcall := h p
  split
  · next hrun => rwa [hrun] at hcall
  · next a p' hrun =>
    rw [hrun] at hcall
    exact (hnext a p').trans hcall

theorem say (level : Level) (line : Bytes) : KeepsLimits (say level line) := fun _ => rfl

theorem session (side : Role) (call : Call Session α) : KeepsLimits (session side call) := by
  intro p
  cases side <;> rfl

theorem collect (side : Role) : KeepsLimits (collect side) := by
  intro p
  cases side <;> rfl

theorem pass (side : Role) {turn : Endpoint → Turn α}
    (h : ∀ e : Endpoint, (turn e).endpoint.codec.limits = e.codec.limits) :
    KeepsLimits (pass side turn) := by
  intro p
  cases side with
  | client => exact congrArg (·, p.server.codec.limits) (h p.client)
  | server => exact congrArg (p.client.codec.limits, ·) (h p.server)

theorem round : KeepsLimits round := by
  refine (pass .client Endpoint.output_limits).bind fun forth => ?_
  refine (pass .server (Endpoint.input_limits · forth)).bind fun _ => ?_
  refine (pass .server Endpoint.output_limits).bind fun back => ?_
  exact (pass .client (Endpoint.input_limits · back)).bind fun _ => .pure _

theorem pump : KeepsLimits pump := by
  intro p
  change (pumpFrom p).2.limits = p.limits
  fun_induction pumpFrom p with
  | case1 p fault p' hround =>
    have := round p
    rwa [hround] at this
  | case2 p p' hround =>
    have := round p
    rwa [hround] at this
  | case3 p p' hround ih =>
    have := round p
    rw [hround] at this
    exact ih.trans this

theorem offer : KeepsLimits offer := pump.bind fun _ => .get_bind fun _ => .say _ _

theorem choose (s : Scenario) : KeepsLimits (choose s) := by
  rw [choose_eq]
  have htake : KeepsLimits takeChoice :=
    .get_bind fun _ => (say _ _).bind fun _ => (collect _).bind fun _ => .pure _
  refine bind ?_ fun _ => pump.bind fun _ => htake
  refine (session _ _).bind fun _ => ?_
  cases s.client.initialResponse with
  | none => exact .pure _
  | some data => exact session _ _

theorem respond (s : Scenario) : KeepsLimits (respond s) := by
  unfold Pair.respond
  cases s.client.response with
  | none => exact .pure _
  | some data =>
    exact (session _ _).bind fun _ => pump.bind fun _ => (collect _).bind fun _ => say _ _

theorem challenge (s : Scenario) : KeepsLimits (challenge s) := by
  unfold Pair.challenge
  cases s.server.challenge with
  | none => exact .pure _
  | some data =>
    refine (session _ _).bind fun _ => pump.bind fun _ => (collect _).bind fun _ => ?_
    exact (say _ _).bind fun _ => respond s

theorem conclude (s : Scenario) : KeepsLimits (conclude s) := by
  unfold Pair.conclude
  refine (session _ _).bind fun _ => pump.bind fun _ => (collect _).bind fun count => ?_
  dsimp only
  split
  · exact (say _ _).bind fun _ => .get_bind fun _ => .pure _
  · exact .get_bind fun _ => .pure _

/-- Each of the calls is made, and none changes the limits. -/
theorem together {calls : List (Call Pair Unit)} (h : ∀ call ∈ calls, KeepsLimits call) :
    KeepsLimits (together calls) := by
  induction calls with
  | nil => exact fun p => rfl
  | cons call calls ih =>
    obtain ⟨hcall, hcalls⟩ := List.forall_mem_cons.1 h
    intro p
    rw [on_together_cons]
    exact (ih hcalls _).trans (hcall p)

end KeepsLimits

variable {s : Scenario} {client server : Bytes}

theorem configure_limits (hleast : minimumLimit ≤ s.frameLimit) :
    (on (fresh client server) (configure s)).2.limits =
      ((s.frameLimit, s.frameLimit), s.frameLimit, s.frameLimit) := by
  rw [on_configure client server hleast]
  refine KeepsLimits.together (List.forall_mem_cons.2 ⟨.session _ _, ?_⟩) _
  exact List.forall_mem_map.2 fun name _ => .session _ _

theorem asks_codec_fails {α : Type} {p : Pair} {call : Call Codec α} {side : Role} {fault : Fault}
    (h : (on (p.endpoint side).codec call).1 = .error fault) :
    Fails p (ask side (Endpoint.inCodec call)) fault := by
  refine ⟨(on p (ask side (Endpoint.inCodec call))).2, Prod.ext ?_ rfl⟩
  exact h

theorem configure_fails (hsmall : s.frameLimit < minimumLimit) :
    Fails (fresh client server) (configure s)
      (.codec (.limitTooSmall s.frameLimit minimumLimit)) := by
  rw [configure]
  refine fails_together_of_ok (on_session rfl) (fails_together_of_ok (on_session rfl) ?_)
  refine (asks_codec_fails ?_).together _
  rw [Codec.setLimit, on_get_bind, on_ofExcept_bind, Codec.checkLimit, if_pos hsmall]

theorem negotiate_limits (hleast : minimumLimit ≤ s.frameLimit) :
    (on (fresh client server) (negotiate s)).2.limits =
      ((s.frameLimit, s.frameLimit), s.frameLimit, s.frameLimit) := by
  have hconfigure : (on (fresh client server) (configure s)).2.limits = _ :=
    configure_limits hleast
  have hrest : KeepsLimits (do Pair.offer; Pair.choose s; Pair.challenge s; Pair.conclude s) :=
    KeepsLimits.offer.bind fun _ => (KeepsLimits.choose s).bind fun _ =>
      (KeepsLimits.challenge s).bind fun _ => .conclude s
  unfold negotiate
  rw [on_bind]
  -- `configure` may still fail at the names, but not before the limits are set
  split
  · next hrun => rwa [hrun] at hconfigure
  · next p hrun =>
    rw [hrun] at hconfigure
    exact (hrest p).trans hconfigure

end Pair

/-! ### The limit of a run -/

/-- The law of the variable: `limit` is the number that it gives, if 32 bits hold one, and else
stays `own`. -/
structure Settings.Obeyed (s : Settings) (own limit : Nat) : Prop where
  asked : ∀ n, s.Asks n → n < wordCount → limit = n
  unasked : (∀ n, s.Asks n → wordCount ≤ n) → limit = own

theorem Settings.obeyed_iff (s : Settings) (own : Nat) : s.Obeyed own (s.limit own).1 ↔
    ∀ n, s.Asks n → wordCount ≤ n → n % wordCount = own := by
  constructor
  · intro h n hasks hwide
    have hown := h.unasked fun m hm => by rwa [hm.unique hasks]
    rwa [hasks.limit] at hown
  · intro h
    refine ⟨fun n hasks hword => ?_, fun hunasked => ?_⟩
    · rw [hasks.limit]
      exact Nat.mod_eq_of_lt hword
    · by_cases hasks : ∃ n, s.Asks n
      · obtain ⟨n, hasks⟩ := hasks
        rw [hasks.limit]
        exact h n hasks (hunasked n hasks)
      · exact s.limit_of_not_asks (not_exists.1 hasks) own

/-- The frame limit of a run, which both sides set for both directions before any bytes move, and
which stays. It is the number that the variable gives, or else that of the scenario. One thing is
neither: a number that 32 bits do not hold is not refused, as what cannot be read is, and nothing is
said about it, but the limit is its remainder. -/
theorem Run.prepare_limit (word? : Bytes → Option UInt32) (settings : Settings)
    (document : Document) {loaded : Scenario}
    (h : (Scenario.load word? settings.path document).1 = .ok loaded) :
    ∃ s, (prepare word? settings document).1 = some s ∧
      (settings.Obeyed loaded.frameLimit s.frameLimit ↔
        ∀ n, settings.Asks n → wordCount ≤ n → n % wordCount = loaded.frameLimit) ∧
      (∀ n, settings.Asks n → n < wordCount → s.frameLimit = n) ∧
      ((∀ n, ¬ settings.Asks n) → s.frameLimit = loaded.frameLimit) ∧
      (∀ n, settings.Asks n → wordCount ≤ n → s.frameLimit = n % wordCount ∧
        (prepare word? settings document).2 = (Scenario.load word? settings.path document).2) ∧
      ∀ client server, let run := on (Pair.fresh client server) (Pair.negotiate s)
        (minimumLimit ≤ s.frameLimit →
          run.2.limits = ((s.frameLimit, s.frameLimit), s.frameLimit, s.frameLimit)) ∧
        (s.frameLimit < minimumLimit →
          run.1 = .error (.codec (.limitTooSmall s.frameLimit minimumLimit))) := by
  have hlimit : (settings.override loaded).1.frameLimit =
    (settings.limit loaded.frameLimit).1 := rfl
  have hnotes : (settings.override loaded).2 = (settings.limit loaded.frameLimit).2 := rfl
  rw [prepare_eq h]
  refine ⟨(settings.override loaded).1, rfl, settings.obeyed_iff _, ?_, ?_, ?_, ?_⟩
  · intro n hasks hword
    rw [hlimit, hasks.limit]
    exact Nat.mod_eq_of_lt hword
  · exact fun hunasked => settings.limit_of_not_asks hunasked _
  · intro n hasks hwide
    rw [hlimit, hnotes, hasks.limit]
    exact ⟨rfl, List.append_nil _⟩
  · intro client server run
    refine ⟨Pair.negotiate_limits, fun hsmall => ?_⟩
    have hconfigure : Fails (Pair.fresh client server) _ _ := Pair.configure_fails hsmall
    obtain ⟨p, hrun⟩ : Fails _ (Pair.negotiate _) _ := hconfigure.bind
    exact congrArg Prod.fst hrun

/-- What the variable holds, if it is set, in a run of a scenario that has `0x400` for its limit. -/
def Run.prepared (given : Option String) : Option Scenario × List Note :=
  prepare Yaml.word? { frameLimit := given.map text } (.loaded [] .refusal)

theorem Run.prepared_limit {given : Option String} {s : Scenario} {limit : Nat}
    (h : (prepared given).1 = some s) (hlimit : s.frameLimit = limit) :
    (prepared given).1.map (·.frameLimit) = some limit := by
  rw [h, Option.map_some, hlimit]

/-- The number is read behind blanks and up to the first byte that is no digit; where there is none,
or a negative one, the scenario's own stays; and what 32 bits do not hold becomes another one. -/
theorem Run.prepare_limit_read :
    (prepared (some " +2048 bytes")).1.map (·.frameLimit) = some 2048 ∧
      (prepared none).1.map (·.frameLimit) = some 1024 ∧
      (prepared (some "-2048")).1.map (·.frameLimit) = some 1024 ∧
      (prepared (some "4294967896")).1.map (·.frameLimit) = some 600 := by
  refine ⟨?_, ?_, ?_, ?_⟩
  · obtain ⟨s, hs, -, hasked, -⟩ := Run.prepare_limit Yaml.word?
      { frameLimit := some (text " +2048 bytes") } (.loaded [] .refusal) rfl
    exact prepared_limit hs (hasked 2048 (Settings.asks_iff.2 ⟨_, rfl, rfl⟩) (by decide))
  · obtain ⟨s, hs, -, -, hunasked, -⟩ := Run.prepare_limit Yaml.word?
      { frameLimit := none } (.loaded [] .refusal) rfl
    refine prepared_limit hs (hunasked ?_)
    rintro n ⟨bytes, hset, -⟩
    cases hset
  · obtain ⟨s, hs, -, -, hunasked, -⟩ := Run.prepare_limit Yaml.word?
      { frameLimit := some (text "-2048") } (.loaded [] .refusal) rfl
    refine prepared_limit hs (hunasked fun n hasks => ?_)
    obtain ⟨bytes, hset, hread⟩ := Settings.asks_iff.1 hasks
    cases hset
    have : (-2048 : Int) = n := Option.some.inj hread
    omega
  · obtain ⟨s, hs, -, -, -, hwide, -⟩ := Run.prepare_limit Yaml.word?
      { frameLimit := some (text "4294967896") } (.loaded [] .refusal) rfl
    exact prepared_limit hs (hwide 4294967896 (Settings.asks_iff.2 ⟨_, rfl, rfl⟩) (by decide)).1

/-- The law of the variable holds in every run. -/
def Run.OverridesExactly (word? : Bytes → Option UInt32) : Prop :=
  ∀ settings document loaded s, (Scenario.load word? settings.path document).1 = .ok loaded →
    (prepare word? settings document).1 = some s → settings.Obeyed loaded.frameLimit s.frameLimit

/-- `2 ^ 32 + 1024` is taken for 1024. -/
theorem Run.not_overridesExactly : ¬ ∃ word?, OverridesExactly word? := by
  rintro ⟨word?, h⟩
  have hobeyed := h { frameLimit := some (text "4294968320") } (.loaded [] (.plainly [])) _ _ rfl
    rfl
  have hasks : ({ frameLimit := some (text "4294968320") } : Settings).Asks 4294968320 :=
    Settings.asks_iff.2 ⟨_, rfl, rfl⟩
  have := hobeyed.unasked fun n hn => hn.unique hasks ▸ by decide
  exact absurd this (by decide)

end FramedSasl
