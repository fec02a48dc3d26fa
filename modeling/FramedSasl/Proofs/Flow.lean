import FramedSasl.Proofs.Link
import FramedSasl.Proofs.Stages

/-! One direction of a link. A `Flow` has at most one performative on its way; wire and codec hold
its bytes, and the header's before them, and all data that the sender's owner gave is received, in
the inbound buffer, on its way or queued. Each turn of either side keeps this. -/

namespace FramedSasl

open Call

/-- With `body`, the codec has all bytes of the performative on its way. -/
def Codec.Underway (c : Codec) : Option Performative → Bytes → Prop
  | none, body => body = [] ∧ c.buffer = [] ∧ c.unfinished = none
  | some p, body => body ≠ [] ∧ c.Awaits p body

namespace Codec

variable {c : Codec} {due : Option Performative} {body : Bytes}

theorem pollAll_empty (hbuffer : c.buffer = []) : c.pollAll = ⟨[], [], none, c⟩ :=
  pollAll_of_cut_none (by rw [hbuffer]; rfl)

/-- Some bytes of `body` come in: nothing is complete yet, or the performative is. -/
theorem Underway.feed (h : c.Underway due body) (n : Nat) :
    ∃ ps arrivals c', (c.feed (body.take n)).pollAll = ⟨ps, arrivals, none, c'⟩ ∧
      c'.limit = c.limit ∧ c'.peerLimit = c.peerLimit ∧
        (ps = [] ∧ c'.Underway due (body.drop n) ∨
          ∃ p, ps = [p] ∧ due = some p ∧ c'.Underway none (body.drop n)) := by
  obtain ⟨hlimit, hpeerLimit⟩ := (c.feed (body.take n)).pollAll_limits
  cases due with
  | none =>
    obtain ⟨rfl, hbuffer, hunfinished⟩ := h
    have hfeed : c.feed (List.take n []) = c := by rw [Codec.feed, List.take_nil, List.append_nil]
    rw [hfeed, pollAll_empty hbuffer]
    exact ⟨[], [], c, rfl, rfl, rfl, .inl ⟨rfl, List.drop_nil, hbuffer, hunfinished⟩⟩
  | some p =>
    obtain ⟨hne, hawaits⟩ := h
    rw [← List.take_append_drop n body] at hawaits
    by_cases hlast : body.drop n = []
    · rw [hlast] at hawaits ⊢
      obtain ⟨arrivals, heq⟩ := hawaits.feed.pollAll_feed []
      rw [feed_feed, List.append_nil, pollAll_empty (c := { c.feed (body.take n) with
        buffer := [], started := true, unfinished := none }) rfl] at heq
      exact ⟨[p], _, _, heq, rfl, rfl, .inr ⟨p, rfl, rfl, rfl, rfl, rfl⟩⟩
    · obtain ⟨hnothing, hfault, hlater⟩ := hawaits.feed.pollAll hlast
      refine ⟨[], (c.feed (body.take n)).pollAll.arrivals, _, ?_, hlimit, hpeerLimit,
        .inl ⟨rfl, hlast, hlater⟩⟩
      rw [← hnothing, ← hfault]

end Codec

/-- The rest of the header on a wire, if it was put there. -/
def headerRest (opened : Bool) (matched : Nat) : Bytes :=
  if opened then protocolHeader.drop matched else []

/-- The header takes its part of the bytes that come in, the same whatever lies behind it. -/
theorem matchHeader_headerRest {opened : Bool} {matched : Nat}
    (hmatched : matched ≤ protocolHeader.length) (hclosed : opened = false → matched = 0)
    (n : Nat) :
    ∃ matched' k, matched' ≤ protocolHeader.length ∧ (opened = false → matched' = 0) ∧
      ∀ body, (opened = false → body = []) →
        Endpoint.matchHeader matched ((headerRest opened matched ++ body).take n) =
            (matched', .ok (body.take k)) ∧
          (headerRest opened matched ++ body).drop n =
            headerRest opened matched' ++ body.drop k := by
  cases opened with
  | false =>
    refine ⟨0, 0, Nat.zero_le _, fun _ => rfl, fun body hbody => ?_⟩
    simp [headerRest, hclosed rfl, hbody rfl, Endpoint.matchHeader]
  | true =>
    refine ⟨_, _, Nat.min_le_right _ _, by simp, fun body _ =>
      ⟨Endpoint.matchHeader_drop hmatched body n, ?_⟩⟩
    simp only [headerRest, if_true]
    rw [List.drop_append, List.drop_drop, List.length_drop]
    rcases Nat.le_total (matched + n) protocolHeader.length with hle | hle
    · rw [Nat.min_eq_left hle]
    · rw [Nat.min_eq_right hle, List.drop_length, List.drop_of_length_le hle]

/-- The wire and the codec of `receiver` hold the performative on its way, behind the header. -/
structure Carries (receiver : Party) (opened : Bool) (due : Option Performative)
    (body : Bytes) : Prop where
  wire : receiver.wire = headerRest opened receiver.endpoint.headerMatched ++ body
  matched : receiver.endpoint.headerMatched ≤ protocolHeader.length
  closed : opened = false → receiver.endpoint.headerMatched = 0 ∧ due = none
  underway : receiver.endpoint.codec.Underway due body

structure Flow (sender receiver : Party) (due : Option Performative) : Prop where
  least : minimumLimit ≤ sender.endpoint.codec.peerLimit
  word : sender.endpoint.codec.peerLimit < wordCount
  fits : sender.endpoint.codec.peerLimit ≤ receiver.endpoint.codec.limit
  carries : receiver.endpoint.failure = none → ∃ opened body,
    (sender.endpoint.failure = none → opened = sender.endpoint.headerSent) ∧
      Carries receiver opened due body
  ledger : ∃ lost, (sender.endpoint.failure = none → lost = []) ∧
    sender.given = receiver.taken ++ receiver.endpoint.session.inbound ++
      (due.bind Performative.payload?).getD [] ++ lost ++ sender.endpoint.session.outbound

/-- What a sender depends on is as it was. -/
structure Endpoint.Keeps (e e' : Endpoint) : Prop where
  peerLimit : e'.codec.peerLimit = e.codec.peerLimit
  failure : e'.failure = e.failure
  headerSent : e'.headerSent = e.headerSent

namespace Carries

variable {receiver : Party} {opened : Bool} {due : Option Performative} {body : Bytes}

/-- The header takes its part of the bytes that come in. -/
theorem header (h : Carries receiver opened due body) (n : Nat) :
    ∃ matched k, Endpoint.matchHeader receiver.endpoint.headerMatched (receiver.wire.take n) =
        (matched, .ok (body.take k)) ∧
      receiver.wire.drop n = headerRest opened matched ++ body.drop k ∧
        matched ≤ protocolHeader.length ∧ (opened = false → matched = 0) := by
  obtain ⟨hwire, hmatched, hclosed, hunderway⟩ := h
  obtain ⟨matched, k, hle, hzero, hbody⟩ :=
    matchHeader_headerRest hmatched (fun hfalse => (hclosed hfalse).1) n
  have hnothing : opened = false → body = [] := by
    intro hfalse
    obtain ⟨-, rfl⟩ := hclosed hfalse
    exact hunderway.1
  obtain ⟨hheader, hrest⟩ := hbody body hnothing
  rw [hwire]
  exact ⟨matched, k, hheader, hrest, hle, hzero⟩

/-- The header goes on the wire, unless it is there. -/
theorem opens (h : Carries receiver opened due body) :
    Carries (receiver.carry (if opened then [] else protocolHeader)) true due body := by
  obtain ⟨hwire, hmatched, hclosed, hunderway⟩ := h
  refine ⟨?_, hmatched, by simp, hunderway⟩
  cases opened with
  | false =>
    obtain ⟨hzero, rfl⟩ := hclosed rfl
    obtain ⟨rfl, -⟩ := hunderway
    have hnone : receiver.wire = [] := hwire
    simp only [Party.carry, hnone, hzero, headerRest]
    rfl
  | true =>
    simp only [Party.carry, hwire, if_true, List.append_nil]

/-- The frames of a performative go on the wire. -/
theorem puts {p : Performative} {limit : Nat} {frames : List Frame}
    (h : Carries receiver true none body) (hframes : p.fragments limit = .ok frames)
    (hdecided : p.Decided) (hword : limit < wordCount)
    (hfits : limit ≤ receiver.endpoint.codec.limit) :
    Carries (receiver.carry (frames.flatMap Frame.serialize)) true (some p)
      (frames.flatMap Frame.serialize) := by
  obtain ⟨hwire, hmatched, hclosed, rfl, hidle⟩ := h
  refine ⟨?_, hmatched, by simp, (p.fragments_completes hframes).bytes_ne_nil,
    Codec.awaits_fragments hidle hframes hdecided hword hfits⟩
  rw [Party.carry, hwire, List.append_nil]

/-- Bytes come in without a fault. With the last of them the performative on its way is accepted. -/
theorem deliver {side : Role} {s : Session} (h : Carries receiver opened due body)
    (hfailure : receiver.endpoint.failure = none)
    (hrole : receiver.endpoint.session.role = some side)
    (haccepts : ∀ p, due = some p → Session.Accepts receiver.endpoint.session p s) (n : Nat) :
    (∃ count, (receiver.endpoint.input (receiver.wire.take n)).result = .ok count) ∧
      receiver.endpoint.Keeps (receiver.deliver n).endpoint ∧
        (receiver.deliver n).endpoint.codec.limit = receiver.endpoint.codec.limit ∧
          ((receiver.deliver n).endpoint.session = receiver.endpoint.session ∧
              (∃ rest, Carries (receiver.deliver n) opened due rest) ∨
            (receiver.deliver n).endpoint.session = s ∧ due ≠ none ∧
              ∃ rest, Carries (receiver.deliver n) opened none rest) := by
  obtain ⟨matched, k, hheader, hrest, hmatched, hzero⟩ := h.header n
  obtain ⟨ps, arrivals, c, hpolls, hlimit, hpeerLimit, hcases⟩ := h.underway.feed k
  -- nothing is complete, or all that was on its way
  rcases hcases with ⟨rfl, hunderway⟩ | ⟨p, rfl, rfl, hunderway⟩
  · obtain ⟨hresult, framesReceived, reported, hendpoint⟩ := Endpoint.input_eq
      (s := receiver.endpoint.session) hfailure hrole hheader hpolls rfl
    rw [Party.deliver, hendpoint, hrest]
    refine ⟨⟨_, hresult⟩, ⟨hpeerLimit, rfl, rfl⟩, hlimit, .inl ⟨rfl, body.drop k, rfl, hmatched,
      fun hclosed => ⟨hzero hclosed, (h.closed hclosed).2⟩, hunderway⟩⟩
  · have haccept := haccepts p rfl
    have hall : on receiver.endpoint.session (forM [p] Session.accept) = (.ok (), s) := by
      rw [List.forM_cons, on_bind, haccept.accepted]
      rfl
    obtain ⟨hresult, framesReceived, reported, hendpoint⟩ :=
      Endpoint.input_eq hfailure hrole hheader hpolls hall
    rw [Party.deliver, hendpoint, hrest]
    exact ⟨⟨_, hresult⟩, ⟨hpeerLimit, rfl, rfl⟩, hlimit, .inr ⟨rfl, Option.some_ne_none p,
      body.drop k, rfl, hmatched,
      fun hclosed => absurd (h.closed hclosed).2 (Option.some_ne_none p), hunderway⟩⟩

end Carries

/-- What a receiver depends on is as it was, but that it may have failed. -/
structure Endpoint.Holds (e e' : Endpoint) : Prop where
  codec : ∃ started, e'.codec = { e.codec with started }
  headerMatched : e'.headerMatched = e.headerMatched
  failure : e'.failure = none → e.failure = none
  inbound : e'.session.inbound = e.session.inbound

namespace Flow

variable {sender receiver sender' receiver' : Party} {due : Option Performative}

theorem fresh (room : Room) (name name' : Bytes) (side side' : Role) (limit limit' : Nat) :
    Flow (.fresh name side limit room.sender) (.fresh name' side' room.receiver limit') none where
  least := room.least
  word := room.word
  fits := room.fits
  carries := fun _ =>
    ⟨false, [], fun _ => rfl, rfl, Nat.zero_le _, fun _ => ⟨rfl, rfl⟩, rfl, rfl, rfl⟩
  ledger := ⟨[], fun _ => rfl, rfl⟩

/-! ### Turns that the direction does not depend on -/

/-- The sender's owner may give more, which is queued. -/
theorem of_sender (h : Flow sender receiver due) (hkeeps : sender.endpoint.Keeps sender'.endpoint)
    {more : Bytes} (hgiven : sender'.given = sender.given ++ more)
    (hqueued : sender'.endpoint.session.outbound =
      sender.endpoint.session.outbound ++ more) :
    Flow sender' receiver due := by
  obtain ⟨hleast, hword, hfits, hcarries, lost, hlost, hledger⟩ := h
  obtain ⟨hlimit, hfailure, hsent⟩ := hkeeps
  refine ⟨by rwa [hlimit], by rwa [hlimit], by rwa [hlimit], ?_, lost, ?_, ?_⟩
  · rwa [hfailure, hsent]
  · rwa [hfailure]
  · rw [hgiven, hqueued, hledger, List.append_assoc]

theorem of_receiver (h : Flow sender receiver due)
    (hholds : receiver.endpoint.Holds receiver'.endpoint) (hwire : receiver'.wire = receiver.wire)
    (htaken : receiver'.taken = receiver.taken) : Flow sender receiver' due := by
  obtain ⟨hleast, hword, hfits, hcarries, lost, hlost, hledger⟩ := h
  obtain ⟨⟨started, hcodec⟩, hmatched, hfailure, hinbound⟩ := hholds
  refine ⟨hleast, hword, by rwa [hcodec], ?_, lost, hlost, by rwa [htaken, hinbound]⟩
  intro hnone
  obtain ⟨opened, body, hopened, hcarry⟩ := hcarries (hfailure hnone)
  refine ⟨opened, body, hopened, ?_, ?_, ?_, ?_⟩
  · rw [hwire, hmatched]
    exact hcarry.wire
  · rw [hmatched]
    exact hcarry.matched
  · rw [hmatched]
    exact hcarry.closed
  · rw [hcodec]
    exact hcarry.underway

/-- Bytes for a receiver that has failed make no difference. -/
theorem drops (h : Flow sender receiver due) {fault : Fault}
    (hfailure : receiver.endpoint.failure = some fault) (wire : Bytes) :
    Flow sender { receiver with wire } due := by
  refine ⟨h.least, h.word, h.fits, ?_, h.ledger⟩
  intro hnone
  rw [hfailure] at hnone
  cases hnone

/-- The receiver's owner receives bytes that have come in. -/
theorem receive (h : Flow sender receiver due) (n : Nat) :
    Flow sender (receiver.receive n) due := by
  obtain ⟨hleast, hword, hfits, hcarries, lost, hlost, hledger⟩ := h
  refine ⟨hleast, hword, hfits, ?_, lost, hlost, ?_⟩
  · intro hnone
    obtain ⟨opened, body, hopened, hcarry⟩ := hcarries hnone
    exact ⟨opened, body, hopened, hcarry.wire, hcarry.matched, hcarry.closed, hcarry.underway⟩
  · rw [hledger, Party.receive, Session.receive]
    simp only [List.append_assoc]
    rw [← List.append_assoc (List.take n _), List.take_append_drop]

/-! ### Bytes that come in -/

/-- Bytes come in without a fault. With the last of them the performative on its way is accepted. -/
theorem deliver {side : Role} {s : Session} (h : Flow sender receiver due)
    (hfailure : receiver.endpoint.failure = none)
    (hrole : receiver.endpoint.session.role = some side)
    (haccepts : ∀ p, due = some p → Session.Accepts receiver.endpoint.session p s) (n : Nat) :
    (∃ count, (receiver.endpoint.input (receiver.wire.take n)).result = .ok count) ∧
      receiver.endpoint.Keeps (receiver.deliver n).endpoint ∧
        ((receiver.deliver n).endpoint.session = receiver.endpoint.session ∧
            Flow sender (receiver.deliver n) due ∨
          (receiver.deliver n).endpoint.session = s ∧ due ≠ none ∧
            Flow sender (receiver.deliver n) none) := by
  obtain ⟨hleast, hword, hfits, hcarries, lost, hlost, hledger⟩ := h
  obtain ⟨opened, body, hopened, hcarry⟩ := hcarries hfailure
  obtain ⟨hresult, hkeeps, hlimit, hcases⟩ := hcarry.deliver hfailure hrole haccepts n
  rw [← hlimit] at hfits
  refine ⟨hresult, hkeeps, ?_⟩
  rcases hcases with ⟨hsession, rest, hrest⟩ | ⟨hsession, hdue, rest, hrest⟩
  · refine .inl ⟨hsession, hleast, hword, hfits, fun _ => ⟨opened, rest, hopened, hrest⟩, lost,
      hlost, ?_⟩
    rw [hsession]
    exact hledger
  · refine .inr ⟨hsession, hdue, hleast, hword, hfits, fun _ => ⟨opened, rest, hopened, hrest⟩,
      lost, hlost, ?_⟩
    obtain ⟨p, rfl⟩ := Option.ne_none_iff_exists'.1 hdue
    rw [hledger, hsession, (haccepts p rfl).inbound]
    simp only [Option.bind_some, Option.bind_none, Option.getD_none, List.append_nil,
      List.append_assoc]
    rfl

/-! ### Bytes that go out -/

section

variable {side : Role} {p : Performative} {s : Session}

theorem rests (h : Flow sender receiver due) (hfailure : sender.endpoint.failure = none)
    (hrole : sender.endpoint.session.role = some side)
    (hrests : on sender.endpoint.session Session.nextOutbound =
      (.ok none, sender.endpoint.session)) :
    (∃ bytes, sender.endpoint.output.result = .ok bytes) ∧
      sender.output.endpoint.session = sender.endpoint.session ∧
        sender.output.endpoint.failure = none ∧ sender.endpoint.Holds sender.output.endpoint ∧
          Flow sender.output (receiver.carry sender.sent) due := by
  obtain ⟨hresult, hendpoint⟩ := Endpoint.output_rests hfailure hrole hrests
  obtain ⟨hleast, hword, hfits, hcarries, lost, hlost, hledger⟩ := h
  have hsent : sender.sent = sender.endpoint.opening := by rw [Party.sent, hresult]
  rw [hsent, Party.output, hendpoint]
  refine ⟨⟨_, hresult⟩, rfl, hfailure, ⟨⟨sender.endpoint.codec.started, rfl⟩, rfl, id, rfl⟩, ?_⟩
  refine ⟨hleast, hword, hfits, ?_, lost, hlost, hledger⟩
  intro hnone
  obtain ⟨opened, body, hopened, hcarry⟩ := hcarries hnone
  rw [hopened hfailure] at hcarry
  exact ⟨true, body, fun _ => rfl, hcarry.opens⟩

theorem emits {frames : List Frame} (h : Flow sender receiver none)
    (hfailure : sender.endpoint.failure = none)
    (hrole : sender.endpoint.session.role = some side)
    (hemits : Session.Emits side sender.endpoint.session p s)
    (hframes : p.fragments sender.endpoint.codec.peerLimit = .ok frames) :
    (∃ bytes, sender.endpoint.output.result = .ok bytes) ∧
      sender.output.endpoint.session = s ∧
        sender.output.endpoint.failure = none ∧ sender.endpoint.Holds sender.output.endpoint ∧
          Flow sender.output (receiver.carry sender.sent) (some p) := by
  obtain ⟨hresult, hendpoint⟩ :=
    Endpoint.output_emits hfailure hrole hemits.due hemits.last hframes
  obtain ⟨hleast, hword, hfits, hcarries, lost, hlost, hledger⟩ := h
  have hsent : receiver.carry sender.sent =
      (receiver.carry sender.endpoint.opening).carry (frames.flatMap Frame.serialize) := by
    simp only [Party.sent, hresult, Party.carry, List.append_assoc]
  rw [hsent, Party.output, hendpoint]
  refine ⟨⟨_, hresult⟩, rfl, hfailure, ⟨⟨true, rfl⟩, rfl, id, hemits.inbound⟩, ?_⟩
  refine ⟨hleast, hword, hfits, ?_, [], fun _ => rfl, ?_⟩
  · intro hnone
    obtain ⟨opened, body, hopened, hcarry⟩ := hcarries hnone
    rw [hopened hfailure] at hcarry
    exact ⟨true, _, fun _ => rfl, hcarry.opens.puts hframes hemits.decided hword hfits⟩
  · rw [hlost hfailure] at hledger
    rw [Party.carry, Party.carry, hledger, ← hemits.payload]
    simp only [Option.bind_some, Option.bind_none, Option.getD_none, List.append_nil,
      List.append_assoc]

theorem refused {fault : Fault} (h : Flow sender receiver none)
    (hfailure : sender.endpoint.failure = none)
    (hrole : sender.endpoint.session.role = some side)
    (hemits : Session.Emits side sender.endpoint.session p s)
    (hframes : p.fragments sender.endpoint.codec.peerLimit = .error fault) :
    sender.endpoint.output.result = .error fault ∧
      sender.output.endpoint.session = s ∧
        sender.output.endpoint.failure = some fault ∧
          sender.endpoint.Holds sender.output.endpoint ∧
            Flow sender.output (receiver.carry sender.sent) none := by
  obtain ⟨hresult, hendpoint⟩ := Endpoint.output_refused hfailure hrole hemits.due hframes
  obtain ⟨hleast, hword, hfits, hcarries, lost, hlost, hledger⟩ := h
  have hsent : receiver.carry sender.sent = receiver := by
    simp only [Party.sent, hresult, Party.carry, List.append_nil]
  rw [hsent, Party.output, hendpoint]
  refine ⟨hresult, rfl, rfl, ⟨⟨true, rfl⟩, rfl, by simp, hemits.inbound⟩, ?_⟩
  -- its payload left the queue and goes nowhere
  refine ⟨hleast, hword, hfits, ?_, p.payload?.getD [], by simp, ?_⟩
  · intro hnone
    obtain ⟨opened, body, hopened, hcarry⟩ := hcarries hnone
    exact ⟨opened, body, by simp, hcarry⟩
  · rw [hlost hfailure] at hledger
    rw [hledger, ← hemits.payload]
    simp only [List.append_nil, List.append_assoc]

end

end Flow

end FramedSasl
