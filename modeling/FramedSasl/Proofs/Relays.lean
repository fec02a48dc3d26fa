import FramedSasl.Loopback
import FramedSasl.Proofs.Agreement

/-! Two endpoints back to back, with all that was sent taken in. What one has to send is relayed at
once: nothing but the header, or a performative that the other accepts, or it does not fit. From
there what a pump does: it brings over the one performative that is due and finds nothing more. -/

namespace FramedSasl

open Call

namespace Call

variable {σ α β : Type}

/-- The call goes well, and then `post` holds of its answer and the state. -/
def Ends (s : σ) (call : Call σ α) (post : α → σ → Prop) : Prop :=
  ∃ a s', on s call = (.ok a, s') ∧ post a s'

def Fails (s : σ) (call : Call σ α) (fault : Fault) : Prop := ∃ s', on s call = (.error fault, s')

variable {s : σ} {call : Call σ α} {next : α → Call σ β} {mid : α → σ → Prop}
  {post : β → σ → Prop} {fault : Fault}

theorem Ends.bind (h : Ends s call mid) (hnext : ∀ a s', mid a s' → Ends s' (next a) post) :
    Ends s (call >>= next) post := by
  obtain ⟨a, s', hcall, hmid⟩ := h
  have hrest := hnext a s' hmid
  rwa [Ends, on_bind, hcall]

theorem Ends.bind_fails (h : Ends s call mid)
    (hnext : ∀ a s', mid a s' → Fails s' (next a) fault) : Fails s (call >>= next) fault := by
  obtain ⟨a, s', hcall, hmid⟩ := h
  have hrest := hnext a s' hmid
  rwa [Fails, on_bind, hcall]

theorem Fails.bind (h : Fails s call fault) : Fails s (call >>= next) fault := by
  obtain ⟨s', hcall⟩ := h
  exact ⟨s', by rw [on_bind, hcall]⟩

variable {step : Call σ Unit} {steps : List (Call σ Unit)} {mid post : Unit → σ → Prop}

theorem Ends.together (h : Ends s step mid)
    (hsteps : ∀ a s', mid a s' → Ends s' (Call.together steps) post) :
    Ends s (Call.together (step :: steps)) post := by
  obtain ⟨a, s', hstep, hmid⟩ := h
  have hrest := hsteps a s' hmid
  rwa [Ends, on_together_of_ok hstep]

theorem fails_together_of_ok {s' : σ} {a : Unit} (h : on s step = (.ok a, s'))
    (hsteps : Fails s' (together steps) fault) : Fails s (together (step :: steps)) fault := by
  rwa [Fails, on_together_of_ok h]

/-- The first fault is the one that counts, whatever the other calls come to. -/
theorem Fails.together (h : Fails s step fault) (steps : List (Call σ Unit)) :
    Fails s (Call.together (step :: steps)) fault := by
  obtain ⟨s', hstep⟩ := h
  exact ⟨_, by rw [on_together_cons, hstep]; rfl⟩

end Call

namespace Endpoint

/-- All that `mine` sent has come in at `theirs`, within the same limit. -/
structure Reaches (mine theirs : Endpoint) (limit : Nat) (opened : Bool) : Prop where
  peerLimit : mine.codec.peerLimit = limit
  limit : theirs.codec.limit = limit
  headerSent : mine.headerSent = opened
  carries : Carries ⟨theirs, [], [], []⟩ opened none []

/-- Two endpoints that have not failed, with these sessions and all that was sent taken in. -/
structure Joined (mine theirs : Endpoint) (limit : Nat) (opened openedBack : Bool)
    (s t : Session) : Prop where
  session : mine.session = s
  theirSession : theirs.session = t
  going : mine.failure = none
  theirsGoing : theirs.failure = none
  forth : mine.Reaches theirs limit opened
  back : theirs.Reaches mine limit openedBack

/-- All of the wire comes in, and with it what is on its way. -/
theorem takes {e : Endpoint} {wire body : Bytes} {due : Option Performative} {side : Role}
    {t : Session} (h : Carries ⟨e, wire, [], []⟩ true due body) (hgoing : e.failure = none)
    (hrole : e.session.role = some side) (hsame : due = none → t = e.session)
    (haccepts : ∀ p, due = some p → Session.Accepts e.session p t) :
    ∃ count, (e.input wire).result = .ok count ∧ (e.input wire).endpoint.session = t ∧
      e.Keeps (e.input wire).endpoint ∧ (e.input wire).endpoint.codec.limit = e.codec.limit ∧
        Carries ⟨(e.input wire).endpoint, [], [], []⟩ true none [] := by
  have hdeliver := h.deliver hgoing hrole haccepts wire.length
  simp only [Party.deliver, List.take_length, List.drop_length] at hdeliver
  obtain ⟨⟨count, hresult⟩, hkeeps, hlimit, hcases⟩ := hdeliver
  have hnothing : ∀ {due rest}, Carries ⟨(e.input wire).endpoint, [], [], []⟩ true due rest →
      rest = [] := fun hcarry => (List.append_eq_nil_iff.1 hcarry.wire.symm).2
  refine ⟨count, hresult, ?_⟩
  rcases hcases with ⟨hsession, rest, hrest⟩ | ⟨hsession, -, rest, hrest⟩
  · cases hnothing hrest
    have hdue : due = none := by
      rcases due with _ | p
      · rfl
      · exact absurd rfl hrest.underway.1
    subst hdue
    exact ⟨hsession.trans (hsame rfl).symm, hkeeps, hlimit, hrest⟩
  · cases hnothing hrest
    exact ⟨hsession, hkeeps, hlimit, hrest⟩

theorem Reaches.opening {mine theirs : Endpoint} {limit : Nat} {opened : Bool}
    (h : mine.Reaches theirs limit opened) :
    mine.opening = if opened then [] else protocolHeader := by
  rw [Endpoint.opening, h.headerSent]

/-- Neither what the receiver sends nor what the sender takes in makes a difference. -/
theorem Reaches.of_keeps {mine theirs mine' theirs' : Endpoint} {limit : Nat} {opened : Bool}
    (h : mine.Reaches theirs limit opened) (hkeeps : mine.Keeps mine')
    (hholds : theirs.Holds theirs') : mine'.Reaches theirs' limit opened := by
  obtain ⟨hpeerLimit, hlimit, hsent, hwire, hmatched, hclosed, hunderway⟩ := h
  obtain ⟨⟨started, hcodec⟩, hheader, -, -⟩ := hholds
  refine ⟨hkeeps.peerLimit.trans hpeerLimit, by rw [hcodec]; exact hlimit,
    hkeeps.headerSent.trans hsent, ?_⟩
  dsimp only at hwire hmatched hclosed hunderway
  rw [← hheader] at hwire hmatched hclosed
  refine ⟨hwire, hmatched, hclosed, ?_⟩
  dsimp only
  rw [hcodec]
  exact hunderway

namespace Joined

variable {mine theirs : Endpoint} {limit : Nat} {opened openedBack : Bool} {s t s' t' : Session}
  {side : Role} {p : Performative}

theorem flip (h : Joined mine theirs limit opened openedBack s t) :
    Joined theirs mine limit openedBack opened t s :=
  ⟨h.theirSession, h.session, h.theirsGoing, h.going, h.back, h.forth⟩

/-- With nothing due, the header goes over unless it has. -/
theorem relay_rests (h : Joined mine theirs limit opened openedBack s t)
    (hs : s.role = some side) (ht : t.role = some side.other)
    (hrests : on s Session.nextOutbound = (.ok none, s)) :
    ∃ bytes count, mine.output.result = .ok bytes ∧ (opened = true → bytes = []) ∧
      (theirs.input bytes).result = .ok count ∧
        Joined mine.output.endpoint (theirs.input bytes).endpoint limit true openedBack s t := by
  obtain ⟨rfl, rfl, hgoing, htheirs, hforth, hback⟩ := h
  obtain ⟨hresult, hendpoint⟩ := output_rests hgoing hs hrests
  have hopening := hforth.opening
  obtain ⟨count, hcount, hsession, hkeeps, hlimit, hcarries⟩ :=
    takes hforth.carries.opens htheirs ht (fun _ => rfl) nofun
  simp only [← hopening] at hcount hsession hkeeps hlimit hcarries
  refine ⟨_, count, hresult, fun hopen => by rw [hopening, if_pos hopen], hcount, ?_⟩
  rw [hendpoint]
  exact
    { session := rfl
      theirSession := hsession
      going := hgoing
      theirsGoing := hkeeps.failure.trans htheirs
      forth := ⟨hforth.peerLimit, hlimit.trans hforth.limit, rfl, hcarries⟩
      back := hback.of_keeps hkeeps ⟨⟨mine.codec.started, rfl⟩, rfl, id, rfl⟩ }

/-- What is due goes over and is accepted. -/
theorem relay_passes {frames : List Frame} (h : Joined mine theirs limit opened openedBack s t)
    (hs : s.role = some side) (ht : t.role = some side.other) (hword : limit < wordCount)
    (hemits : Session.Emits side s p s') (haccepts : Session.Accepts t p t')
    (hframes : p.fragments limit = .ok frames) :
    ∃ bytes count, mine.output.result = .ok bytes ∧ bytes ≠ [] ∧
      (theirs.input bytes).result = .ok count ∧
        Joined mine.output.endpoint (theirs.input bytes).endpoint limit true openedBack s' t' := by
  obtain ⟨rfl, rfl, hgoing, htheirs, hforth, hback⟩ := h
  have hfits := hframes
  rw [← hforth.peerLimit] at hframes
  obtain ⟨hresult, hendpoint⟩ := output_emits hgoing hs hemits.due hemits.last hframes
  have hopening := hforth.opening
  have hputs := hforth.carries.opens.puts hfits hemits.decided hword
    (Nat.le_of_eq hforth.limit.symm)
  obtain ⟨count, hcount, hsession, hkeeps, hlimit, hcarries⟩ :=
    takes hputs htheirs ht nofun (fun q hq => by cases hq; exact haccepts)
  simp only [← hopening] at hcount hsession hkeeps hlimit hcarries
  have hbytes := (p.fragments_completes hframes).bytes_ne_nil
  refine ⟨_, count, hresult, fun hnil => hbytes (List.append_eq_nil_iff.1 hnil).2, hcount, ?_⟩
  rw [hendpoint]
  exact
    { session := rfl
      theirSession := hsession
      going := hgoing
      theirsGoing := hkeeps.failure.trans htheirs
      forth := ⟨hforth.peerLimit, hlimit.trans hforth.limit, rfl, hcarries⟩
      back := hback.of_keeps hkeeps ⟨⟨true, rfl⟩, rfl, id, hemits.inbound⟩ }

/-- What is due does not fit. -/
theorem relay_refused {fault : Fault} (h : Joined mine theirs limit opened openedBack s t)
    (hs : s.role = some side) (hemits : Session.Emits side s p s')
    (hframes : p.fragments limit = .error fault) : mine.output.result = .error fault := by
  obtain ⟨rfl, rfl, hgoing, -, hforth, -⟩ := h
  rw [← hforth.peerLimit] at hframes
  exact (output_refused hgoing hs hemits.due hframes).1

end Joined

end Endpoint

namespace Pair

/-- Nothing is on its way between the two, and their sessions are `c` and `s`. -/
def At (p : Pair) (limit : Nat) (opened openedBack : Bool) (c s : Session) : Prop :=
  p.client.Joined p.server limit opened openedBack c s

variable {p p' : Pair} {limit : Nat} {opened openedBack : Bool} {c s c' s' : Session}
  {q : Performative} {frames : List Frame} {fault : Fault}

/-! ### Rounds -/

theorem on_round {forth back : Bytes} {n m : Nat} (hforth : p.client.output.result = .ok forth)
    (hserver : (p.server.input forth).result = .ok n)
    (hback : (p.server.input forth).endpoint.output.result = .ok back)
    (hclient : (p.client.output.endpoint.input back).result = .ok m) :
    ∃ notes, on p round = (.ok (decide (forth ≠ [] ∨ back ≠ [])),
      ⟨(p.client.output.endpoint.input back).endpoint,
        (p.server.input forth).endpoint.output.endpoint, notes⟩) := by
  simp only [round, on_pass_bind, passed, put, endpoint, hforth, hserver, hback, hclient, on_pure]
  exact ⟨_, rfl⟩

theorem round_refused (hforth : p.client.output.result = .error fault) : Fails p round fault := by
  simp only [Fails, round, on_pass_bind, endpoint, hforth]
  exact ⟨_, rfl⟩

theorem round_refused_back {forth : Bytes} {n : Nat}
    (hforth : p.client.output.result = .ok forth)
    (hserver : (p.server.input forth).result = .ok n)
    (hback : (p.server.input forth).endpoint.output.result = .error fault) :
    Fails p round fault := by
  simp only [Fails, round, on_pass_bind, passed, put, endpoint, hforth, hserver, hback]
  exact ⟨_, rfl⟩

/-- The header goes over on both sides, unless it has. -/
theorem round_rests (h : p.At limit opened openedBack c s) (hc : c.role = some .client)
    (hs : s.role = some .server) (hcrests : on c Session.nextOutbound = (.ok none, c))
    (hsrests : on s Session.nextOutbound = (.ok none, s)) :
    ∃ moved p', on p round = (.ok moved, p') ∧ p'.At limit true true c s ∧
      (opened = true → openedBack = true → moved = false) := by
  obtain ⟨forth, n, hforth, hnone, hserver, hjoined⟩ := h.relay_rests hc hs hcrests
  obtain ⟨back, m, hback, hnone', hclient, hjoined'⟩ := hjoined.flip.relay_rests hs hc hsrests
  obtain ⟨notes, hround⟩ := on_round hforth hserver hback hclient
  refine ⟨_, _, hround, hjoined'.flip, fun hopened hopenedBack => ?_⟩
  simp [hnone hopened, hnone' hopenedBack]

/-- The client sends what is due; it leaves nothing for the server to say. -/
theorem round_forth (h : p.At limit opened openedBack c s) (hc : c.role = some .client)
    (hs : s.role = some .server) (hword : limit < wordCount)
    (hemits : Session.Emits .client c q c') (haccepts : Session.Accepts s q s')
    (hframes : q.fragments limit = .ok frames) (hc' : c'.role = some .client)
    (hs' : s'.role = some .server) (hrests : on s' Session.nextOutbound = (.ok none, s')) :
    ∃ p', on p round = (.ok true, p') ∧ p'.At limit true true c' s' := by
  obtain ⟨forth, n, hforth, hsome, hserver, hjoined⟩ :=
    h.relay_passes hc hs hword hemits haccepts hframes
  obtain ⟨back, m, hback, -, hclient, hjoined'⟩ := hjoined.flip.relay_rests hs' hc' hrests
  obtain ⟨notes, hround⟩ := on_round hforth hserver hback hclient
  rw [decide_eq_true (.inl hsome)] at hround
  exact ⟨_, hround, hjoined'.flip⟩

/-- The server sends what is due. -/
theorem round_back (h : p.At limit opened openedBack c s) (hc : c.role = some .client)
    (hs : s.role = some .server) (hword : limit < wordCount)
    (hrests : on c Session.nextOutbound = (.ok none, c))
    (hemits : Session.Emits .server s q s') (haccepts : Session.Accepts c q c')
    (hframes : q.fragments limit = .ok frames) :
    ∃ p', on p round = (.ok true, p') ∧ p'.At limit true true c' s' := by
  obtain ⟨forth, n, hforth, -, hserver, hjoined⟩ := h.relay_rests hc hs hrests
  obtain ⟨back, m, hback, hsome, hclient, hjoined'⟩ :=
    hjoined.flip.relay_passes hs hc hword hemits haccepts hframes
  obtain ⟨notes, hround⟩ := on_round hforth hserver hback hclient
  rw [decide_eq_true (.inr hsome)] at hround
  exact ⟨_, hround, hjoined'.flip⟩

/-! ### Pumps -/

theorem on_pump (p : Pair) :
    on p pump =
      match on p round with
      | (.error fault, p') => (.error fault, p')
      | (.ok false, p') => (.ok (), p')
      | (.ok true, p') => on p' pump := by
  change pumpFrom p = _
  rw [pumpFrom]
  split
  · next hround => rw [hround]
  · next hround => rw [hround]
  · next hround => rw [hround]; rfl

theorem pump_fails (h : Fails p round fault) : Fails p pump fault := by
  obtain ⟨p', h⟩ := h
  exact ⟨p', by rw [on_pump, h]⟩

/-- Where neither side has anything to send, a pump ends at once. -/
theorem pump_rests (h : p.At limit true true c s) (hc : c.role = some .client)
    (hs : s.role = some .server) (hcrests : on c Session.nextOutbound = (.ok none, c))
    (hsrests : on s Session.nextOutbound = (.ok none, s)) :
    Ends p pump fun _ p' => p'.At limit true true c s := by
  obtain ⟨moved, p', hround, hat, hmoved⟩ := round_rests h hc hs hcrests hsrests
  cases hmoved rfl rfl
  exact ⟨(), p', by rw [on_pump, hround], hat⟩

theorem pump_of_round {post : Unit → Pair → Prop} (hround : on p round = (.ok true, p'))
    (h : Ends p' pump post) : Ends p pump post := by
  rwa [Ends, on_pump, hround]

/-- A pump brings over what the client has to send. -/
theorem pump_forth (h : p.At limit opened openedBack c s) (hc : c.role = some .client)
    (hs : s.role = some .server) (hword : limit < wordCount)
    (hemits : Session.Emits .client c q c') (haccepts : Session.Accepts s q s')
    (hframes : q.fragments limit = .ok frames) (hc' : c'.role = some .client)
    (hs' : s'.role = some .server) (hrests : on s' Session.nextOutbound = (.ok none, s')) :
    Ends p pump fun _ p' => p'.At limit true true c' s' := by
  obtain ⟨p₁, hround, hat⟩ :=
    round_forth h hc hs hword hemits haccepts hframes hc' hs' hrests
  exact pump_of_round hround (pump_rests hat hc' hs' hemits.last hrests)

theorem pump_forth_refused (h : p.At limit opened openedBack c s) (hc : c.role = some .client)
    (hemits : Session.Emits .client c q c') (hframes : q.fragments limit = .error fault) :
    Fails p pump fault :=
  pump_fails (round_refused (h.relay_refused hc hemits hframes))

/-- A pump brings over what the server has to send. -/
theorem pump_back (h : p.At limit opened openedBack c s) (hc : c.role = some .client)
    (hs : s.role = some .server) (hword : limit < wordCount)
    (hrests : on c Session.nextOutbound = (.ok none, c))
    (hemits : Session.Emits .server s q s') (haccepts : Session.Accepts c q c')
    (hframes : q.fragments limit = .ok frames) (hc' : c'.role = some .client)
    (hs' : s'.role = some .server) (hrests' : on c' Session.nextOutbound = (.ok none, c')) :
    Ends p pump fun _ p' => p'.At limit true true c' s' := by
  obtain ⟨p₁, hround, hat⟩ := round_back h hc hs hword hrests hemits haccepts hframes
  exact pump_of_round hround (pump_rests hat hc' hs' hrests' hemits.last)

theorem pump_back_refused (h : p.At limit opened openedBack c s) (hc : c.role = some .client)
    (hs : s.role = some .server) (hrests : on c Session.nextOutbound = (.ok none, c))
    (hemits : Session.Emits .server s q s') (hframes : q.fragments limit = .error fault) :
    Fails p pump fault := by
  obtain ⟨forth, n, hforth, -, hserver, hjoined⟩ := h.relay_rests hc hs hrests
  have hback := hjoined.flip.relay_refused hs hemits hframes
  exact pump_fails (round_refused_back hforth hserver hback)

end Pair

end FramedSasl
