import FramedSasl.Proofs.LoadedScenarios

/-! What becomes of `server.outcome`. A scalar there is either the name of the loaded outcome or the
reason why nothing is loaded, whatever else the document says. A sequence or a map there is passed
over like a key that is not there, and leaves the outcome at `ok`. -/

namespace FramedSasl

namespace Loading

variable {α β : Type} {load : Loading α} {next : α → Loading β} {fault : ScenarioFault}

/-- Behind any notes, the load ends with `fault`. -/
def Fails (load : Loading α) (fault : ScenarioFault) : Prop :=
  ∀ notes, (load.run notes).1 = .error fault

/-- Behind any notes, the load gives a value. -/
def Total (load : Loading α) : Prop := ∀ notes, ∃ a, (load.run notes).1 = .ok a

theorem Fails.bind (h : Fails load fault) : Fails (load >>= next) fault := by
  intro notes
  rw [run_bind]
  split
  · next hload => cases (congrArg Prod.fst hload).symm.trans (h notes)
  · next hload =>
    cases (congrArg Prod.fst hload).symm.trans (h notes)
    rfl

theorem Total.bind_fails (h : Total load) (hnext : ∀ a, Fails (next a) fault) :
    Fails (load >>= next) fault := by
  intro notes
  rw [run_bind]
  split
  · next a notes' _ => exact hnext a notes'
  · next hload =>
    obtain ⟨a, ha⟩ := h notes
    cases (congrArg Prod.fst hload).symm.trans ha

end Loading

/-! ### The outcome in a document -/

theorem Outcome.name_of_ofName? {name : Bytes} {outcome : Outcome}
    (h : ofName? name = some outcome) : outcome.name = name := by
  simpa using List.find?_some h

theorem text_injective {a b : String} (h : text a = text b) : a = b :=
  String.toByteArray_inj.1 (ByteArray.ext (Array.toList_inj.1 h))

namespace Tree

/-- The value of `server.outcome`. -/
def outcome? (root : Tree) : Option Tree := (root.get? "server").bind (·.get? "outcome")

/-- What `server.outcome` stands for: a scalar for the outcome of that name, and whatever is no
scalar for `ok`. -/
def Declares (node : Option Tree) (outcome : Outcome) : Prop :=
  node = some (.scalar outcome.name) ∨ text? node = none ∧ outcome = .ok

/-- Two maps that say the same of everything but `server.outcome`. -/
structure SameButOutcome (root root' : Tree) : Prop where
  map : ∃ entries, root = .map entries
  map' : ∃ entries, root' = .map entries
  sections : ∀ key ≠ "server", root.get? key = root'.get? key
  server : ∀ key ≠ "outcome",
    (root.get? "server").bind (·.get? key) = (root'.get? "server").bind (·.get? key)

theorem get?_map_cons {key key' : String} (h : key ≠ key') (node : Tree)
    (entries : List (Bytes × Tree)) :
    (map ((text key', node) :: entries)).get? key = (map entries).get? key := by
  have hne : (text key == text key') = false := by
    simpa using fun heq => h (text_injective heq)
  simp only [get?, List.lookup_cons, hne]

theorem sameButOutcome_cons (node : Tree) (plan sections : List (Bytes × Tree)) :
    SameButOutcome (.map ((text "server", .map ((text "outcome", node) :: plan)) :: sections))
      (.map ((text "server", .map plan) :: sections)) where
  map := ⟨_, rfl⟩
  map' := ⟨_, rfl⟩
  sections key hkey := by rw [get?_map_cons hkey, get?_map_cons hkey]
  server key hkey := get?_map_cons hkey node plan

theorem map_of_outcome? {root node : Tree} (h : root.outcome? = some node) :
    ∃ entries, root = .map entries := by
  cases root with
  | map entries => exact ⟨entries, rfl⟩
  | null | scalar _ | sequence _ => cases h

theorem get?_getD_null (node : Option Tree) (key : String) :
    (node.getD .null).get? key = node.bind (·.get? key) := by
  cases node <;> rfl

theorem text?_eq_some {node : Option Tree} {name : Bytes} :
    text? node = some name ↔ node = some (.scalar name) := by
  constructor
  · intro h
    rcases node with _ | tree
    · cases h
    · cases tree with
      | scalar _ => cases h; rfl
      | null | sequence _ | map _ => cases h
  · rintro rfl
    rfl

theorem Declares.getD_name {node : Option Tree} {outcome : Outcome} (h : Declares node outcome) :
    (text? node).getD Outcome.ok.name = outcome.name := by
  obtain rfl | ⟨hnone, rfl⟩ := h
  · rfl
  · rw [hnone]
    rfl

theorem declares_of_getD_name {node : Option Tree} {outcome : Outcome}
    (h : (text? node).getD Outcome.ok.name = outcome.name) : Declares node outcome := by
  rcases hnode : text? node with _ | name
  · rw [hnode] at h
    refine .inr ⟨hnode, ?_⟩
    cases outcome with
    | ok => rfl
    | auth | sys | sysPerm | sysTemp | undecided => exact absurd h (by decide)
  · rw [hnode] at h
    cases h
    exact .inl (text?_eq_some.1 hnode)

end Tree

namespace Scenario

open Loading (Gives Fails Total)
open FramedSasl.Tree (text? Declares SameButOutcome)

variable {word? : Bytes → Option UInt32} {root root' node node' : Tree} {name path file : Bytes}
  {s : Scenario} {outcome : Outcome}

/-! ### Reading it -/

theorem readServer_unknown (hnode : node.get? "outcome" = some (.scalar name))
    (hname : Outcome.ofName? name = none) : readServer node = .error (.unknownOutcome name) := by
  have htext : (text? (node.get? "outcome")).getD Outcome.ok.name = name := by
    rw [hnode]
    rfl
  unfold readServer
  rw [htext]
  dsimp only
  rw [hname]

theorem readServer_declares {plan : ServerPlan} (h : readServer node = .ok plan) :
    plan.outcome ∈ Outcome.decided ∧ Declares (node.get? "outcome") plan.outcome := by
  unfold readServer at h
  dsimp only at h
  split at h
  · cases h
  · next hname =>
    cases h
    exact ⟨List.mem_of_find?_eq_some hname,
      Tree.declares_of_getD_name (Outcome.name_of_ofName? hname).symm⟩

theorem readServer_congr (hsame : ∀ key ≠ "outcome", node.get? key = node'.get? key)
    (h : Declares (node.get? "outcome") outcome) (h' : Declares (node'.get? "outcome") outcome) :
    readServer node = readServer node' := by
  unfold readServer
  rw [h.getD_name, h'.getD_name, hsame "mechanisms" (by decide), hsame "challenge" (by decide),
    hsame "additional_data" (by decide)]

theorem readLimit_total (node : Option Tree) (fallback : Nat) :
    Total (readLimit word? node fallback) := by
  intro notes
  unfold readLimit
  split
  · exact ⟨fallback, rfl⟩
  · split
    · next limit _ => exact ⟨limit.toNat, rfl⟩
    · exact ⟨fallback, rfl⟩

theorem outcome?_eq (root : Tree) :
    ((root.get? "server").getD .null).get? "outcome" = root.outcome? :=
  Tree.get?_getD_null _ _

theorem read_unknown (hnode : root.outcome? = some (.scalar name))
    (hname : Outcome.ofName? name = none) : Fails (read word? root) (.unknownOutcome name) := by
  have hserver := readServer_unknown ((outcome?_eq root).trans hnode) hname
  unfold read
  refine (readLimit_total _ _).bind_fails fun limit => Fails.bind ?_
  rw [hserver]
  exact fun _ => rfl

theorem read_declares (h : Gives (read word? root) s) :
    s.server.outcome ∈ Outcome.decided ∧ Declares root.outcome? s.server.outcome := by
  unfold read at h
  dsimp only at h
  obtain ⟨limit, -, h⟩ := h.bind
  obtain ⟨server, hserver, h⟩ := h.bind
  cases h.pure
  rw [← outcome?_eq]
  exact readServer_declares hserver.ofExcept

theorem read_congr (hsame : SameButOutcome root root') (h : Declares root.outcome? outcome)
    (h' : Declares root'.outcome? outcome) : read word? root = read word? root' := by
  rw [← outcome?_eq] at h h'
  have hserver : readServer ((root.get? "server").getD .null) =
      readServer ((root'.get? "server").getD .null) := by
    refine readServer_congr (fun key hkey => ?_) h h'
    rw [Tree.get?_getD_null, Tree.get?_getD_null, hsame.server key hkey]
  unfold read
  dsimp only
  rw [hserver, hsame.sections "global" (by decide), hsame.sections "transport" (by decide),
    hsame.sections "client" (by decide)]

/-! ### Loading it -/

theorem load_error {fault : ScenarioFault} {document : Document}
    (h : Fails (ofDocument word? path document) fault) :
    (load word? path document).1 = .error fault := by
  unfold load
  split
  · next hrun => cases (congrArg Prod.fst hrun).symm.trans (h [])
  · next hrun =>
    cases (congrArg Prod.fst hrun).symm.trans (h [])
    rfl

theorem load_unknown (hnode : root.outcome? = some (.scalar name))
    (hname : Outcome.ofName? name = none) :
    (load word? path (.loaded file root)).1 = .error (.unknownOutcome name) := by
  obtain ⟨entries, rfl⟩ := Tree.map_of_outcome? hnode
  refine load_error (Total.bind_fails (fun _ => ⟨(), rfl⟩) fun _ => Fails.bind ?_)
  exact read_unknown hnode hname

theorem load_congr (hsame : SameButOutcome root root') (h : Declares root.outcome? outcome)
    (h' : Declares root'.outcome? outcome) :
    load word? path (.loaded file root) = load word? path (.loaded file root') := by
  have hread : read word? root = read word? root' := read_congr hsame h h'
  obtain ⟨entries, rfl⟩ := hsame.map
  obtain ⟨entries', rfl⟩ := hsame.map'
  unfold load ofDocument
  dsimp only
  rw [hread]

/-- What is loaded of `server.outcome`. A scalar that names no outcome is refused, whatever else is
wrong. A scenario that could be loaded has the outcome that is named, or `ok` if nothing is; and
whatever is no scalar stands for `ok` as an absent key does, with the same notes. -/
theorem load_declares (word? : Bytes → Option UInt32) (path file : Bytes) (root : Tree) :
    (∀ name, root.outcome? = some (.scalar name) → Outcome.ofName? name = none →
      (load word? path (.loaded file root)).1 = .error (.unknownOutcome name)) ∧
    (∀ s, (load word? path (.loaded file root)).1 = .ok s →
      s.server.outcome ∈ Outcome.decided ∧ Declares root.outcome? s.server.outcome) ∧
    ∀ root' outcome, SameButOutcome root root' →
      Declares root.outcome? outcome → Declares root'.outcome? outcome →
      load word? path (.loaded file root) = load word? path (.loaded file root') :=
  ⟨fun _ => load_unknown, fun _ h => read_declares (ofDocument_gives (load_gives h)).1,
    fun _ _ => load_congr⟩

end Scenario

/-- A server that offers one mechanism, with this in its section, and a client that chooses it. -/
def Tree.plainly (plan : List (Bytes × Tree)) : Tree := .map
  [(text "server", .map (plan ++ [(text "mechanisms", .sequence [.scalar (text "PLAIN")])])),
    (text "client", .map [(text "mechanism", .scalar (text "PLAIN"))])]

/-- A refusal, but in brackets. -/
def Tree.bracketed : Tree := plainly [(text "outcome", .sequence [.scalar (text "auth")])]

theorem Scenario.load_declares_bracketed :
    (load Yaml.word? [] (.loaded [] (.plainly [(text "outcome", .scalar (text "none"))]))).1 =
        .error (.unknownOutcome (text "none")) ∧
      Tree.Declares Tree.refusal.outcome? .auth ∧
      load Yaml.word? [] (.loaded [] .bracketed) = load Yaml.word? [] (.loaded [] (.plainly [])) ∧
      (load Yaml.word? [] (.loaded [] .bracketed)).1.map (·.server.outcome) = .ok .ok := by
  refine ⟨?_, ?_, ?_, rfl⟩
  · exact (load_declares Yaml.word? [] [] _).1 _ rfl (by decide)
  · exact ((load_declares Yaml.word? [] [] .refusal).2.1 .refusal rfl).2
  · exact (load_declares Yaml.word? [] [] _).2.2 _ .ok (Tree.sameButOutcome_cons _ _ _)
      (.inr ⟨rfl, rfl⟩) (.inr ⟨rfl, rfl⟩)

/-- Nothing is loaded whose outcome is given and names none. -/
def Scenario.RefusesWrongOutcomes (word? : Bytes → Option UInt32) : Prop :=
  ∀ path file root node, root.outcome? = some node → node ≠ .null →
    (∀ outcome ∈ Outcome.decided, node ≠ .scalar outcome.name) →
    ∃ fault, (load word? path (.loaded file root)).1 = .error fault

theorem Scenario.not_refusesWrongOutcomes : ¬ ∃ word?, RefusesWrongOutcomes word? := by
  rintro ⟨word?, h⟩
  obtain ⟨fault, hload⟩ := h [] [] .bracketed (.sequence [.scalar (text "auth")]) rfl
    (by rintro ⟨⟩) (by rintro _ - ⟨⟩)
  cases hload

end FramedSasl
