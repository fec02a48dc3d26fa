import FramedSasl.Proofs.Flow
import FramedSasl.Proofs.MaskedTurns

/-! Payloads stay between the owners. When the owners of a client and a server do the same twice,
but for the contents of the payloads that they hand over, both runs look the same to all others:
what each call answers, what is logged, how many bytes go out, and all of the endpoints but the
payloads. Every run looks like the one in which all payloads are zeros (`sights_masked`). -/

namespace FramedSasl

open Call

/-- A call of the owner on a limit. -/
inductive LimitCall where
  | own (size : UInt32)
  | peer (size : UInt32)

def LimitCall.run : LimitCall → Call Codec Unit
  | own size => Codec.setLimit size.toNat
  | peer size => Codec.setPeerLimit size.toNat

namespace LimitCall

theorem on_masked (call : LimitCall) (c : Codec) (buffer : Bytes) :
    on (c.masked buffer) call.run = ((on c call.run).1, (on c call.run).2.masked buffer) := by
  cases call with
  | own size =>
    have hcheck : (c.masked buffer).checkLimit (c.masked buffer).limit size.toNat =
        c.checkLimit c.limit size.toNat := rfl
    simp only [run, Codec.setLimit, on_get_bind, on_ofExcept_bind, on_set, hcheck]
    split <;> rfl
  | peer size =>
    have hcheck : (c.masked buffer).checkLimit (c.masked buffer).peerLimit size.toNat =
        c.checkLimit c.peerLimit size.toNat := rfl
    simp only [run, Codec.setPeerLimit, on_get_bind, on_ofExcept_bind, on_set, hcheck]
    split <;> rfl

theorem buffer_run (call : LimitCall) (c : Codec) : (on c call.run).2.buffer = c.buffer := by
  cases call with
  | own size => exact Endpoint.buffer_setLimit c size.toNat
  | peer size => exact Endpoint.buffer_setPeerLimit c size.toNat

end LimitCall

/-- The owner sets a limit. -/
def Party.adjust (p : Party) (call : LimitCall) : Party :=
  { p with endpoint := (on p.endpoint (Endpoint.inCodec call.run)).2 }

/-- What the owner of a side can do. -/
inductive Party.Act where
  | call (call : OwnerCall)
  | limit (call : LimitCall)
  | receive (n : Nat)
  | output
  | deliver (n : Nat)

/-- The same act with zeros in the payload that it hands over. -/
def Party.Act.masked : Act → Act
  | call ownerCall => call ownerCall.masked
  | act => act

namespace Party

def perform (p : Party) : Act → Party
  | .call call => p.obey call
  | .limit call => p.adjust call
  | .receive n => p.receive n
  | .output => p.output
  | .deliver n => p.deliver n

theorem carry_nil (p : Party) : p.carry [] = p := by rw [carry, List.append_nil]

/-- The bytes for the wire to the other side. -/
def puts (p : Party) : Act → Bytes
  | .output => p.sent
  | _ => []

/-- What an act answers, bytes by their number, and what it reports. -/
def tells (p : Party) : Act → Except Fault Nat × List Event
  | .call call => ((on p.endpoint.session call.run).1.map fun _ => 0, [])
  | .limit call => ((on p.endpoint.codec call.run).1.map fun _ => 0, [])
  | .receive n => (.ok (p.endpoint.session.receive n).1.length, [])
  | .output => (p.endpoint.output.result.map List.length, p.endpoint.output.events)
  | .deliver n =>
    let turn := p.endpoint.input (p.wire.take n)
    (turn.result, turn.events)

end Party

/-- All of an endpoint but the contents of payloads. -/
def Endpoint.shown (e : Endpoint) : Endpoint := e.masked (blank e.codec.buffer)

theorem Endpoint.shown_masked {e : Endpoint} {buffer : Bytes}
    (h : buffer.length = e.codec.buffer.length) : (e.masked buffer).shown = e.shown := by
  simp [shown, masked, Codec.masked, blank_of_length h, Function.comp_def]

/-- What shows of an act: what it answers, the records of what it reports, for any journal and at
any time, and both endpoints behind it. -/
structure Sight where
  answer : Except Fault Nat
  log : List (Option Level → Bytes → List Record)
  client : Endpoint
  server : Endpoint

namespace Link

/-- The owner of one side acts. -/
def perform (l : Link) (side : Role) (act : Party.Act) : Link :=
  match side with
  | .client => ⟨l.client.perform act, l.server.carry (l.client.puts act)⟩
  | .server => ⟨l.client.carry (l.server.puts act), l.server.perform act⟩

def sight (l : Link) (side : Role) (act : Party.Act) : Sight where
  answer := ((l.party side).tells act).1
  log := ((l.party side).tells act).2.map fun event =>
    event.records (l.party side).endpoint.name
  client := (l.perform side act).client.endpoint.shown
  server := (l.perform side act).server.endpoint.shown

/-- What shows of a run. -/
def sights (l : Link) : List (Role × Party.Act) → List Sight
  | [] => []
  | (side, act) :: acts => l.sight side act :: (l.perform side act).sights acts

end Link

/-! ### Both directions -/

/-- `p'` is `p` with masked payloads. -/
structure Party.Masks (p p' : Party) : Prop where
  valid : p.endpoint.Valid
  role : ∃ side, p.endpoint.session.role = some side
  endpoint : ∃ buffer', p'.endpoint = p.endpoint.masked buffer' ∧
    buffer'.length = p.endpoint.codec.buffer.length

namespace Party

theorem Masks.session {p p' : Party} (h : p.Masks p') :
    p'.endpoint.session = p.endpoint.session.masked := by
  obtain ⟨buffer', hmasked, -⟩ := h.endpoint
  rw [hmasked]
  rfl

theorem Masks.name {p p' : Party} (h : p.Masks p') : p'.endpoint.name = p.endpoint.name := by
  obtain ⟨buffer', hmasked, -⟩ := h.endpoint
  rw [hmasked]
  rfl

theorem Masks.shown {p p' : Party} (h : p.Masks p') : p'.endpoint.shown = p.endpoint.shown := by
  obtain ⟨buffer', hmasked, hlength⟩ := h.endpoint
  rw [hmasked, Endpoint.shown_masked hlength]

/-- A call keeps what all calls keep. -/
theorem Masks.perform {p p' q q' : Party} (h : p.Masks p') (act : Endpoint.Act) {buffer' : Bytes}
    (hperform : q.endpoint = p.endpoint.perform act)
    (hmasked : q'.endpoint = q.endpoint.masked buffer')
    (hlength : buffer'.length = q.endpoint.codec.buffer.length) : q.Masks q' := by
  refine ⟨?_, ?_, buffer', hmasked, hlength⟩
  · rw [hperform]
    exact h.valid.perform act
  · obtain ⟨side, hside⟩ := h.role
    rw [hperform]
    exact ⟨side, h.valid.role_perform hside act⟩

theorem obey_eq (p : Party) (call : OwnerCall) :
    ∃ given, p.obey call = { p with
      endpoint := { p.endpoint with session := (on p.endpoint.session call.run).2 }, given } := by
  rw [obey, Endpoint.on_inSession]
  rcases on p.endpoint.session call.run with ⟨fault | _, s⟩
  · exact ⟨p.given, rfl⟩
  · exact ⟨p.given ++ call.data, rfl⟩

end Party

/-- Behind what is left of the header the wires and the buffers have the same frames; those of
`receiver'` are masked. -/
structure Courses (opened : Bool) (receiver receiver' : Party) (body body' : Bytes) : Prop where
  wire : receiver.wire = headerRest opened receiver.endpoint.headerMatched ++ body
  wire' : receiver'.wire = headerRest opened receiver.endpoint.headerMatched ++ body'
  closed : opened = false → receiver.endpoint.headerMatched = 0 ∧ body = [] ∧ body' = []
  veiled : receiver.endpoint.codec.Veiled body receiver'.endpoint.codec.buffer body'

/-- As long as the receiver has not failed, what is on its way has the same frames. -/
def Conveys (sender : Endpoint) (receiver receiver' : Party) : Prop :=
  receiver.endpoint.failure = none → ∃ opened body body',
    (sender.failure = none → opened = sender.headerSent) ∧
      Courses opened receiver receiver' body body'

theorem Courses.length {opened : Bool} {receiver receiver' : Party} {body body' : Bytes}
    (h : Courses opened receiver receiver' body body') : body'.length = body.length := by
  have hall := h.veiled.veils.length_eq
  simpa [h.veiled.length] using hall

/-- More frames go on the wires, behind the header. -/
theorem Courses.carry {opened : Bool} {receiver receiver' : Party} {body body' more more' : Bytes}
    (h : Courses opened receiver receiver' body body') (hmore : Veils more more') :
    Courses true (receiver.carry ((if opened then [] else protocolHeader) ++ more))
      (receiver'.carry ((if opened then [] else protocolHeader) ++ more'))
      (body ++ more) (body' ++ more') := by
  obtain ⟨hwire, hwire', hclosed, hlength, hveils⟩ := h
  have hall : Veils (receiver.endpoint.codec.buffer ++ (body ++ more))
      (receiver'.endpoint.codec.buffer ++ (body' ++ more')) := by
    rw [← List.append_assoc, ← List.append_assoc]
    exact hveils.append hmore
  refine ⟨?_, ?_, nofun, hlength, hall⟩
  · cases opened with
    | false =>
      obtain ⟨hzero, rfl, rfl⟩ := hclosed rfl
      simp [Party.carry, hwire, hzero, headerRest]
    | true => simp [Party.carry, hwire]
  · cases opened with
    | false =>
      obtain ⟨hzero, rfl, rfl⟩ := hclosed rfl
      simp [Party.carry, hwire', hzero, headerRest]
    | true => simp [Party.carry, hwire']

theorem Conveys.of_sender {sender sender' : Endpoint} {receiver receiver' : Party}
    (h : Conveys sender receiver receiver')
    (hfailure : sender'.failure = none → sender.failure = none)
    (hsent : sender'.headerSent = sender.headerSent) : Conveys sender' receiver receiver' := by
  intro hgoing
  obtain ⟨opened, body, body', hopened, hcourses⟩ := h hgoing
  exact ⟨opened, body, body', fun hnone => (hopened (hfailure hnone)).trans hsent.symm, hcourses⟩

theorem Conveys.of_receiver {sender : Endpoint} {receiver receiver' next next' : Party}
    (h : Conveys sender receiver receiver')
    (hfailure : next.endpoint.failure = none → receiver.endpoint.failure = none)
    (hmatched : next.endpoint.headerMatched = receiver.endpoint.headerMatched)
    (hbuffer : next.endpoint.codec.buffer = receiver.endpoint.codec.buffer)
    (hbuffer' : next'.endpoint.codec.buffer = receiver'.endpoint.codec.buffer)
    (hwire : next.wire = receiver.wire) (hwire' : next'.wire = receiver'.wire) :
    Conveys sender next next' := by
  intro hgoing
  obtain ⟨opened, body, body', hopened, hcourses⟩ := h (hfailure hgoing)
  refine ⟨opened, body, body', hopened, ?_, ?_, ?_, ?_, ?_⟩
  · rw [hwire, hmatched, hcourses.wire]
  · rw [hwire', hmatched, hcourses.wire']
  · rw [hmatched]
    exact hcourses.closed
  · rw [hbuffer, hbuffer', hcourses.veiled.length]
  · rw [hbuffer, hbuffer']
    exact hcourses.veiled.veils

/-- Two sides, and both with masked payloads. -/
structure Alike (mine mine' theirs theirs' : Party) : Prop where
  outward : Conveys mine.endpoint theirs theirs'
  inward : Conveys theirs.endpoint mine mine'
  mine : mine.Masks mine'
  theirs : theirs.Masks theirs'

namespace Alike

variable {mine mine' theirs theirs' next next' : Party}

theorem flip (h : Alike mine mine' theirs theirs') : Alike theirs theirs' mine mine' :=
  ⟨h.inward, h.outward, h.theirs, h.mine⟩

/-- What is on its way stays when the owner calls. -/
theorem stays (h : Alike mine mine' theirs theirs') (hmasks : next.Masks next')
    (hfailure : next.endpoint.failure = mine.endpoint.failure)
    (hsent : next.endpoint.headerSent = mine.endpoint.headerSent)
    (hmatched : next.endpoint.headerMatched = mine.endpoint.headerMatched)
    (hbuffer : next.endpoint.codec.buffer = mine.endpoint.codec.buffer)
    (hbuffer' : next'.endpoint.codec.buffer = mine'.endpoint.codec.buffer)
    (hwire : next.wire = mine.wire) (hwire' : next'.wire = mine'.wire) :
    Alike next next' theirs theirs' where
  outward := h.outward.of_sender (by simp [hfailure]) hsent
  inward := h.inward.of_receiver (by simp [hfailure]) hmatched hbuffer hbuffer' hwire hwire'
  mine := hmasks
  theirs := h.theirs

/-- A call on the session has no part in what is on its way. -/
theorem of_session (h : Alike mine mine' theirs theirs') (act : Session.Act) {s : Session}
    (hperform : (mine.endpoint.session.perform act).1 = s)
    (hnext : next.endpoint = { mine.endpoint with session := s })
    (hnext' : next'.endpoint = { mine'.endpoint with session := s.masked })
    (hwire : next.wire = mine.wire) (hwire' : next'.wire = mine'.wire) :
    Alike next next' theirs theirs' := by
  obtain ⟨buffer', hmasked, hlength⟩ := h.mine.endpoint
  have hendpoint : next'.endpoint = next.endpoint.masked buffer' := by
    rw [hnext', hnext, hmasked]
    rfl
  have hmasks : next.Masks next' := by
    refine h.mine.perform (.session act) ?_ hendpoint ?_
    · rw [hnext, ← hperform]
      rfl
    · rw [hnext, hlength]
  refine h.stays hmasks ?_ ?_ ?_ ?_ ?_ hwire hwire'
  all_goals first | rw [hnext] | rw [hnext']

theorem obey (h : Alike mine mine' theirs theirs') (call : OwnerCall) :
    (on mine'.endpoint.session call.masked.run).1 = (on mine.endpoint.session call.run).1 ∧
      Alike (mine.obey call) (mine'.obey call.masked) theirs theirs' := by
  have hcall := Session.on_run_masked mine.endpoint.session call
  rw [← h.mine.session] at hcall
  obtain ⟨given, hobey⟩ := mine.obey_eq call
  obtain ⟨given', hobey'⟩ := mine'.obey_eq call.masked
  have hperform : (mine.endpoint.session.perform (.call call)).1 =
      (on mine.endpoint.session call.run).2 := by
    rw [Session.perform]
    rcases on mine.endpoint.session call.run with ⟨fault | _, s⟩ <;> rfl
  refine ⟨by rw [hcall], h.of_session (.call call) hperform ?_ ?_ ?_ ?_⟩
  · rw [hobey]
  · rw [hobey', hcall]
  · rw [hobey]
  · rw [hobey']

theorem receive (h : Alike mine mine' theirs theirs') (n : Nat) :
    (mine'.endpoint.session.receive n).1.length = (mine.endpoint.session.receive n).1.length ∧
      Alike (mine.receive n) (mine'.receive n) theirs theirs' := by
  have hreceive : mine'.endpoint.session.receive n = (blank (mine.endpoint.session.receive n).1,
      (mine.endpoint.session.receive n).2.masked) := by
    rw [h.mine.session]
    simp [Session.receive, Session.masked]
  refine ⟨by simp [hreceive], h.of_session (.receive n) rfl rfl ?_ rfl rfl⟩
  rw [Party.receive, hreceive]
  rfl

theorem adjust (h : Alike mine mine' theirs theirs') (call : LimitCall) :
    (on mine'.endpoint.codec call.run).1 = (on mine.endpoint.codec call.run).1 ∧
      Alike (mine.adjust call) (mine'.adjust call) theirs theirs' := by
  obtain ⟨buffer', hmasked, hlength⟩ := h.mine.endpoint
  have hcodec : mine'.endpoint.codec = mine.endpoint.codec.masked buffer' := by rw [hmasked]; rfl
  have hcall := call.on_masked mine.endpoint.codec buffer'
  rw [← hcodec] at hcall
  obtain ⟨act, hact⟩ : ∃ act, (mine.adjust call).endpoint = mine.endpoint.perform act := by
    cases call with
    | own size => exact ⟨.setLimit size, rfl⟩
    | peer size => exact ⟨.setPeerLimit size, rfl⟩
  have hnext : (mine'.adjust call).endpoint = (mine.adjust call).endpoint.masked buffer' := by
    rw [Party.adjust, Endpoint.on_inCodec, hcall, hmasked]
    rfl
  have hbuffer : (mine.adjust call).endpoint.codec.buffer = mine.endpoint.codec.buffer :=
    call.buffer_run mine.endpoint.codec
  have hbuffer' : (mine'.adjust call).endpoint.codec.buffer = mine'.endpoint.codec.buffer :=
    call.buffer_run mine'.endpoint.codec
  have hmasks := h.mine.perform act hact hnext (by rw [hlength, hbuffer])
  exact ⟨by rw [hcall], h.stays hmasks rfl rfl rfl hbuffer hbuffer' rfl rfl⟩

theorem output (h : Alike mine mine' theirs theirs') :
    mine'.endpoint.output.result.map List.length = mine.endpoint.output.result.map List.length ∧
      mine'.endpoint.output.events = mine.endpoint.output.events.map Event.masked ∧
        Alike mine.output mine'.output (theirs.carry mine.sent) (theirs'.carry mine'.sent) := by
  obtain ⟨buffer', hmasked, hlength⟩ := h.mine.endpoint
  obtain ⟨side, hrole⟩ := h.mine.role
  obtain ⟨hputs, hendpoint, hevents⟩ :=
    Endpoint.output_masked hrole h.mine.valid.codec.peerLimit_lt buffer'
  rw [← hmasked] at hputs hendpoint hevents
  obtain ⟨hbuffer, hmatched, hfailed, hgoing⟩ := h.mine.valid.output_cases hrole
  have hbuffer' : mine'.output.endpoint.codec.buffer = mine'.endpoint.codec.buffer := by
    rw [Party.output, hendpoint, hmasked]
    rfl
  have hmasks : mine.output.Masks mine'.output :=
    h.mine.perform .output rfl hendpoint (hlength.trans (congrArg _ hbuffer.symm))
  have htheirs : (theirs.carry mine.sent).Masks (theirs'.carry mine'.sent) :=
    ⟨h.theirs.valid, h.theirs.role, h.theirs.endpoint⟩
  refine ⟨hputs.map_length, hevents, ?_⟩
  rcases hresult : mine.endpoint.output.result with fault | bytes
  · have hfault := hfailed fault hresult
    have hresult' := (hresult ▸ hputs).of_error
    have hsent : mine.sent = [] := by rw [Party.sent, hresult]
    have hsent' : mine'.sent = [] := by rw [Party.sent, hresult']
    refine ⟨?_, ?_, hmasks, htheirs⟩
    · intro hgoing
      obtain ⟨opened, body, body', -, hcourses⟩ := h.outward hgoing
      refine ⟨opened, body, body', fun hnone => ?_, ?_⟩
      · cases hfault.symm.trans hnone
      · rw [hsent, hsent', Party.carry, Party.carry, List.append_nil, List.append_nil]
        exact hcourses
    · intro hnone
      cases hfault.symm.trans hnone
  · obtain ⟨hbefore, hopened⟩ := hgoing bytes hresult
    obtain ⟨body, body', rfl, hresult', hveils⟩ := (hresult ▸ hputs).of_ok
    have hsent : mine.sent = mine.endpoint.opening ++ body := by rw [Party.sent, hresult]
    have hsent' : mine'.sent = mine.endpoint.opening ++ body' := by rw [Party.sent, hresult']
    refine ⟨?_, ?_, hmasks, htheirs⟩
    · intro hgoing
      obtain ⟨opened, front, front', hfront, hcourses⟩ := h.outward hgoing
      have hcarry := hcourses.carry hveils
      rw [hfront hbefore] at hcarry
      rw [hsent, hsent']
      exact ⟨true, _, _, fun _ => hopened.symm, hcarry⟩
    · exact h.inward.of_receiver (fun _ => hbefore) hmatched hbuffer hbuffer' rfl rfl

theorem deliver (h : Alike mine mine' theirs theirs') (n : Nat) :
    (mine'.endpoint.input (mine'.wire.take n)).result =
        (mine.endpoint.input (mine.wire.take n)).result ∧
      (mine'.endpoint.input (mine'.wire.take n)).events =
          (mine.endpoint.input (mine.wire.take n)).events.map Event.masked ∧
        Alike (mine.deliver n) (mine'.deliver n) theirs theirs' := by
  obtain ⟨buffer', hmasked, hlength⟩ := h.mine.endpoint
  rcases hfailure : mine.endpoint.failure with _ | fault
  · obtain ⟨side, hrole⟩ := h.mine.role
    obtain ⟨opened, body, body', hopened, hcourses⟩ := h.inward hfailure
    obtain ⟨matched, k, hle, hzero, hheader⟩ := matchHeader_headerRest h.mine.valid.header
      (fun hfalse => (hcourses.closed hfalse).1) n
    obtain ⟨hmatch, hdrop⟩ := hheader body fun hfalse => (hcourses.closed hfalse).2.1
    obtain ⟨hmatch', hdrop'⟩ := hheader body' fun hfalse => (hcourses.closed hfalse).2.2
    rw [← hcourses.wire] at hmatch hdrop
    rw [← hcourses.wire'] at hmatch' hdrop'
    have hfed : (mine.endpoint.codec.feed (body.take k)).Veiled (body.drop k)
        (buffer' ++ body'.take k) (body'.drop k) := by
      refine ⟨?_, ?_⟩
      · simp [Codec.feed, hlength, hcourses.length]
      · have hveils := hcourses.veiled.veils
        rw [hmasked] at hveils
        simpa [Codec.feed, Endpoint.masked, Codec.masked] using hveils
    obtain ⟨left, hinput, hveiled, hmatched, hsent⟩ :=
      Endpoint.input_masked hrole hfailure hmatch hmatch' hfed
    rw [← hmasked] at hinput
    have hmatched : (mine.deliver n).endpoint.headerMatched = matched := hmatched
    have hmasks : (mine.deliver n).Masks (mine'.deliver n) :=
      h.mine.perform (.input (mine.wire.take n)) rfl (congrArg Turn.endpoint hinput)
        hveiled.length
    refine ⟨by rw [hinput]; rfl, by rw [hinput]; rfl, ?_, ?_, hmasks, h.theirs⟩
    · exact h.outward.of_sender (fun _ => hfailure) hsent
    · intro _
      refine ⟨opened, body.drop k, body'.drop k, hopened, ?_, ?_, ?_, ?_⟩
      · rw [hmatched]
        exact hdrop
      · rw [hmatched]
        exact hdrop'
      · intro hfalse
        obtain ⟨-, rfl, rfl⟩ := hcourses.closed hfalse
        rw [hmatched]
        exact ⟨hzero hfalse, List.drop_nil, List.drop_nil⟩
      · rw [Party.deliver, Party.deliver, hinput]
        exact hveiled
  · have hfailure' : mine'.endpoint.failure = some fault := by
      rw [hmasked]
      exact hfailure
    obtain ⟨hresult, hdeliver⟩ := Party.deliver_of_failure hfailure n
    obtain ⟨hresult', hdeliver'⟩ := Party.deliver_of_failure hfailure' n
    rw [Endpoint.input_of_failure hfailure, Endpoint.input_of_failure hfailure', hdeliver,
      hdeliver']
    refine ⟨rfl, rfl, h.outward, ?_, ⟨h.mine.valid, h.mine.role, h.mine.endpoint⟩, h.theirs⟩
    intro hnone
    cases hfailure.symm.trans hnone

/-- Whatever an owner does answers and reports the same, but for payloads. -/
theorem perform (h : Alike mine mine' theirs theirs') (act : Party.Act) :
    mine'.tells act.masked = ((mine.tells act).1, (mine.tells act).2.map Event.masked) ∧
      Alike (mine.perform act) (mine'.perform act.masked) (theirs.carry (mine.puts act))
        (theirs'.carry (mine'.puts act.masked)) := by
  cases act with
  | call call =>
    obtain ⟨hanswer, hnext⟩ := h.obey call
    simp only [Party.tells, Party.puts, Party.Act.masked, hanswer, Party.carry_nil]
    exact ⟨rfl, hnext⟩
  | limit call =>
    obtain ⟨hanswer, hnext⟩ := h.adjust call
    simp only [Party.tells, Party.puts, Party.Act.masked, hanswer, Party.carry_nil]
    exact ⟨rfl, hnext⟩
  | receive n =>
    obtain ⟨hanswer, hnext⟩ := h.receive n
    simp only [Party.tells, Party.puts, Party.Act.masked, hanswer, Party.carry_nil]
    exact ⟨rfl, hnext⟩
  | output =>
    obtain ⟨hanswer, hevents, hnext⟩ := h.output
    exact ⟨Prod.ext hanswer hevents, hnext⟩
  | deliver n =>
    obtain ⟨hanswer, hevents, hnext⟩ := h.deliver n
    simp only [Party.puts, Party.Act.masked, Party.carry_nil]
    exact ⟨Prod.ext hanswer hevents, hnext⟩

end Alike

/-! ### Runs -/

namespace Link

variable {l l' : Link}

theorem perform_masked (h : Alike l.client l'.client l.server l'.server) (side : Role)
    (act : Party.Act) :
    (l'.party side).tells act.masked =
        (((l.party side).tells act).1, ((l.party side).tells act).2.map Event.masked) ∧
      (l'.party side).endpoint.name = (l.party side).endpoint.name ∧
        Alike (l.perform side act).client (l'.perform side act.masked).client
          (l.perform side act).server (l'.perform side act.masked).server := by
  -- an act of the server is one of the client, seen from the other side
  cases side with
  | client =>
    obtain ⟨htells, hnext⟩ := h.perform act
    exact ⟨htells, h.mine.name, hnext⟩
  | server =>
    obtain ⟨htells, hnext⟩ := h.flip.perform act
    exact ⟨htells, h.theirs.name, hnext.flip⟩

theorem sight_masked (h : Alike l.client l'.client l.server l'.server) (side : Role)
    (act : Party.Act) : l'.sight side act.masked = l.sight side act := by
  obtain ⟨htells, hname, hnext⟩ := perform_masked h side act
  simp [sight, htells, hname, Event.records_masked, Function.comp_def, hnext.mine.shown,
    hnext.theirs.shown]

theorem sights_masked (h : Alike l.client l'.client l.server l'.server)
    (acts : List (Role × Party.Act)) :
    l'.sights (acts.map (Prod.map id Party.Act.masked)) = l.sights acts := by
  induction acts generalizing l l' with
  | nil => rfl
  | cons act acts ih =>
    obtain ⟨side, act⟩ := act
    obtain ⟨-, -, hnext⟩ := perform_masked h side act
    simp only [List.map_cons, Prod.map, id_eq, sights, sight_masked h, ih hnext]

theorem masks_fresh (name : Bytes) (side : Role) :
    (Party.fresh name side minimumLimit minimumLimit).Masks
      (.fresh name side minimumLimit minimumLimit) where
  valid := ⟨.inr ⟨side, .opening, .assigned side⟩, .new, Nat.zero_le _, fun _ => rfl⟩
  role := ⟨side, rfl⟩
  endpoint := ⟨[], rfl, rfl⟩

theorem alike_fresh (name name' : Bytes) (side side' : Role) :
    let mine := Party.fresh name side minimumLimit minimumLimit
    let theirs := Party.fresh name' side' minimumLimit minimumLimit
    Alike mine mine theirs theirs where
  outward _ := ⟨false, [], [], fun _ => rfl, rfl, rfl, fun _ => ⟨rfl, rfl, rfl⟩, rfl, .nil⟩
  inward _ := ⟨false, [], [], fun _ => rfl, rfl, rfl, fun _ => ⟨rfl, rfl, rfl⟩, rfl, .nil⟩
  mine := masks_fresh name side
  theirs := masks_fresh name' side'

/-- Acts that differ in the contents of payloads alone, and not in their lengths, look the same.
What is said of a frame tells the presence and the length of a payload, and no more. -/
theorem sights_eq_of_masked (clientName serverName : Bytes) (acts acts' : List (Role × Party.Act))
    (h : acts.map (Prod.map id Party.Act.masked) = acts'.map (Prod.map id Party.Act.masked)) :
    (fresh clientName serverName default default).sights acts =
        (fresh clientName serverName default default).sights acts' ∧
      ∀ p p' : Performative, p.masked = p'.masked → p.describe = p'.describe ∧
        ∀ traffic more endpoint journal stamp,
          (Event.passed traffic ⟨p, more⟩ (Frame.mk p more).size).records endpoint journal stamp =
            (Event.passed traffic ⟨p', more⟩ (Frame.mk p' more).size).records endpoint journal
              stamp := by
  let l := fresh clientName serverName default default
  have halike : Alike l.client l.client l.server l.server :=
    alike_fresh clientName serverName .client .server
  refine ⟨?_, fun p p' hp => ⟨?_, fun traffic more endpoint journal stamp => ?_⟩⟩
  · calc l.sights acts
      _ = l.sights (acts.map (Prod.map id Party.Act.masked)) := (sights_masked halike acts).symm
      _ = l.sights (acts'.map (Prod.map id Party.Act.masked)) := by rw [h]
      _ = l.sights acts' := sights_masked halike acts'
  · rw [← p.describe_masked, hp, p'.describe_masked]
  · have hframe : (Frame.mk p more).masked = (Frame.mk p' more).masked := by
      rw [Frame.masked, Frame.masked, hp]
    have hsize : (Frame.mk p more).size = (Frame.mk p' more).size := by
      rw [← Frame.size_masked, hframe, Frame.size_masked]
    have hevent : (Event.passed traffic ⟨p, more⟩ (Frame.mk p more).size).masked =
        (Event.passed traffic ⟨p', more⟩ (Frame.mk p' more).size).masked := by
      rw [Event.masked, Event.masked, hframe, hsize]
    rw [← Event.records_masked, hevent, Event.records_masked]

/-- Two passwords of one length, sent in an init. -/
theorem sights_eq_of_masked_passwords :
    let acts (password : Bytes) : List (Role × Party.Act) :=
      [(.server, .call (.setMechanisms [text "PLAIN"])), (.server, .output),
        (.client, .call (.setMechanisms [text "PLAIN"])), (.client, .call (.send password)),
        (.client, .deliver 100), (.client, .output), (.server, .deliver 100)]
    text "alice" ≠ text "bobby" ∧
      (fresh (text "c") (text "s") default default).sights (acts (text "alice")) =
        (fresh (text "c") (text "s") default default).sights (acts (text "bobby")) := by
  intro acts
  have hmasked : (acts (text "alice")).map (Prod.map id Party.Act.masked) =
      (acts (text "bobby")).map (Prod.map id Party.Act.masked) := rfl
  exact ⟨by decide, (sights_eq_of_masked (text "c") (text "s") _ _ hmasked).1⟩

end Link

end FramedSasl
