import FramedSasl.Proofs.Agreement

/-! The bytes that owners give and receive. Whatever the limits and however the bytes come in, an
owner receives what the other gave, from the first byte on and in order; once the wires are empty
all of it has come in but what is still queued. -/

namespace FramedSasl

namespace Flow

variable {sender receiver : Party} {due : Option Performative}

theorem received_prefix (h : Flow sender receiver due) :
    receiver.taken ++ receiver.endpoint.session.inbound <+: sender.given := by
  obtain ⟨lost, -, hledger⟩ := h.ledger
  rw [hledger, List.append_assoc, List.append_assoc]
  exact List.prefix_append _ _

/-- With nothing on the wire, no performative is on its way. -/
theorem received_all (h : Flow sender receiver due) (hwire : receiver.wire = [])
    (hsender : sender.endpoint.failure = none) (hreceiver : receiver.endpoint.failure = none) :
    sender.given = receiver.taken ++ receiver.endpoint.session.inbound ++
      sender.endpoint.session.outbound := by
  obtain ⟨opened, body, -, hcarry⟩ := h.carries hreceiver
  obtain ⟨lost, hlost, hledger⟩ := h.ledger
  have hbody : body = [] := (List.append_eq_nil_iff.1 (hcarry.wire.symm.trans hwire)).2
  have hdue : due = none := by
    cases due with
    | none => rfl
    | some p => exact absurd hbody hcarry.underway.1
  rw [hledger, hlost hsender, hdue, List.append_nil, Option.bind_none, Option.getD_none,
    List.append_nil]

end Flow

/-- After any moves in any order: what an owner received, and what has come in for it, is what the
other owner gave from the first byte on. If nothing is on its way and no side has failed, it is all
but what is queued. -/
theorem Link.run_delivers (clientName serverName : Bytes) (toServer toClient : Room)
    (moves : List Move) :
    let l := (fresh clientName serverName toServer toClient).run moves
    let client := l.client.endpoint
    let server := l.server.endpoint
    l.server.taken ++ server.session.inbound <+: l.client.given ∧
      l.client.taken ++ client.session.inbound <+: l.server.given ∧
      (l.client.wire = [] → l.server.wire = [] → client.failure = none → server.failure = none →
        l.client.given = l.server.taken ++ server.session.inbound ++ client.session.outbound ∧
          l.server.given =
            l.client.taken ++ client.session.inbound ++ server.session.outbound) := by
  intro l client server
  obtain ⟨stage, h⟩ : ∃ stage, Sound .client l.client l.server stage :=
    sound_run (sound_fresh clientName serverName toServer toClient) moves
  refine ⟨h.outward.received_prefix, h.inward.received_prefix,
    fun hclientWire hserverWire hclient hserver => ⟨?_, ?_⟩⟩
  · exact h.outward.received_all hserverWire hclient hserver
  · exact h.inward.received_all hclientWire hserver hclient

end FramedSasl
