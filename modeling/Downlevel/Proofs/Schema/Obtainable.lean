import Downlevel.Lowering.Program
import Downlevel.Proofs.Grammar.Fidelity
import Downlevel.Proofs.Schema.Namespaces
import Downlevel.Proofs.Tree.Faults
import Mathlib.Algebra.Ring.Nat
/-!
# Proofs.Schema.Obtainable — what holds of every tree that can be obtained

Every rule answers with schematic trees about schematic trees, however many levels it may look down, so what a schematic
tree is lowered to is schematic (`Node.Schematic.lower`).  Nothing is asked of the tree besides: it may hold tokens at
several places, and separated lists of any number of members and separators.

`Operation` lists the ways in which one node is made of others: of slots that are checked, of the fields of a typed view,
by the functions for code that was not written by hand, by edits and walks, by reading a text and by lowering.  A node is
obtainable if operations lead to it (`Obtainable`).  Each operation keeps trees schematic (`Operation.schematic`), and so
every obtainable tree is, whatever the arity of its separated lists and wherever its tokens stand.

A node, a list and a separated list store their width when they are made: the widths of their parts added up.  Whatever
stores widths in this way (`WidthCache`) stores the number of bytes of the rendered text.
-/
namespace Downlevel

namespace LoweringContext

variable {c : LoweringContext} {n : Node} {ns : List Node}

/-! ## Rules -/

theorem schematic_captureAtHead (h : AllSchematic ns) : (c.captureAtHead ns).Gives AllSchematic := by
  cases ns with
  | nil => exact (schematic_captureStatement 0).bindPure (fun m hm => by simpa using hm)
  | cons first rest =>
    obtain ⟨hfirst, hrest⟩ := AllSchematic.cons_iff.1 h
    refine (schematic_captureStatement 0).bind (fun capture hcapture => (hcapture.withLeading _).bind (fun m hm => ?_))
    exact ((AllSchematic.node_iff.1 hfirst).withLeading _).bindPure (fun m' hm' => by simp [hm, hm', hrest])

theorem schematic_sourceUnit (hc : c.transformer.KeepsSchema) (hn : n.Schematic) :
    (c.sourceUnit n).Gives AllSchematic := by
  unfold sourceUnit
  refine (Work.Gives.view hn).bind (fun v hv => ?_)
  have helements : AllSchematic v.elements := by simpa [NodeView.toSlots] using hv
  refine (Work.Gives.inScope (hc.walkList helements)).bind (fun p hp => ?_)
  obtain ⟨elements, captured⟩ := p
  rw [AllSchematic.walked_iff] at hp
  have hrest : ∀ statements : List Node, AllSchematic statements →
      (do return .one (← NodeView.toNode (SourceUnit.mk statements v.endOfFile)) : Lowering Replacement).Gives
        AllSchematic := fun statements hs => .one (.lift (schematic_toNode (by simp [NodeView.toSlots, hs])))
  dsimp only
  split
  · exact .pure (AllSchematic.one_iff.2 hn)
  · split
    · exact .make (schematic_captureAtHead hp) hrest
    · exact hrest _ hp

theorem schematic_callSignature (hn : n.Schematic) : (callSignature n).Gives AllSchematic := by
  unfold callSignature
  refine (Work.Gives.view hn).bind (fun v hv => ?_)
  obtain ⟨hparameters, -⟩ : v.parameters.Schematic ∧ AllSchematic v.resultType := by simpa [NodeView.toSlots] using hv
  refine (schematic_parameterList hparameters _).bind (fun p hp => ?_)
  obtain ⟨parameters, facts⟩ := p
  obtain ⟨hparameters, -⟩ := AllSchematic.pair_iff.1 hp
  dsimp only
  split
  · exact .pure (AllSchematic.one_iff.2 hn)
  · exact .one (.lift (Build.schematic_callSignature (AllSchematic.node_iff.1 hparameters)))

/-- **What takes the place of a schematic tree is schematic**, if that is so of what lowering makes of its parts. -/
theorem schematic_rule (hc : c.transformer.KeepsSchema) (hn : n.Schematic) : (c.rule n).Gives AllSchematic := by
  unfold rule
  split
  · exact schematic_sourceUnit hc hn
  · exact .pure AllSchematic.removed
  · exact schematic_classDeclaration hc hn
  · exact schematic_moduleDeclaration hc hn
  · exact schematic_enumDeclaration hc hn
  · exact schematic_functionDeclaration hc hn
  · exact schematic_variableStatement hc hn
  · exact schematic_variableDeclarator hc hn
  · exact .pure AllSchematic.removed
  · exact schematic_callSignature hn
  · exact (schematic_parameterList hn none).bindPure (fun p hp => AllSchematic.one_iff.2
      (AllSchematic.node_iff.1 (AllSchematic.pair_iff.1 hp).1))
  · exact .one (schematic_eraseParameter hn)
  · exact schematic_expressionStatement hc hn
  · exact schematic_thisExpression hn
  · exact schematic_castExpression hc hn
  · exact schematic_invocation hc hn
  · exact schematic_memberAccess hc hn
  · exact schematic_functionExpression hc hn
  · exact schematic_objectAccessor hc hn
  · exact schematic_objectAccessor hc hn
  · exact schematic_simpleArrow hc hn
  · exact schematic_parenthesizedArrow hc hn
  · exact .one (hc.walk hn)

/-- However many levels lowering may look down, it answers with schematic trees about schematic trees. -/
theorem keepsSchema_visitUpTo (positions : Positions) (layout : LayoutOptions) : ∀ levels : Nat,
    (LoweringContext.mk positions layout (visitUpTo positions layout levels)).transformer.KeepsSchema
  | 0 => fun _ _ => .fail
  | levels + 1 => fun _ hn => schematic_rule (keepsSchema_visitUpTo positions layout levels) hn

end LoweringContext

/-! ## Trees -/

/-- **A parsed tree is schematic.** -/
theorem schematic_parseFresh (text : List Char) : (parseFresh text).Gives (fun r => ∀ n, r = .ok n → n.Schematic) := by
  intro next n hn
  have hrun : parseFrom text next = (.ok n, (parseFrom text next).2) := Prod.ext hn rfl
  exact (parseFrom_isProgram hrun).2.wellFormed.schematic

namespace Node.Schematic

variable {n : Node}

theorem lowerByRules (hn : n.Schematic) (layout : LayoutOptions) : (n.lowerByRules layout).Gives Node.Schematic :=
  (LoweringContext.keepsSchema_visitUpTo _ layout _).root hn

theorem withExtendsHelper (hn : n.Schematic) (o : LayoutOptions) : (n.withExtendsHelper o).Gives Node.Schematic := by
  unfold Node.withExtendsHelper
  split
  · exact .pure hn
  · rename_i program hprogram
    obtain helements : AllSchematic program.elements := by simpa [NodeView.toSlots] using hn.view hprogram
    refine .make (schematic_parseFresh _) (fun parsed hparsed => ?_)
    cases parsed with
    | error e => exact .fail
    | ok helper =>
      refine (Work.Gives.view (hparsed helper rfl)).bind (fun v hv => ?_)
      have hhelper : AllSchematic v.elements := by simpa [NodeView.toSlots] using hv
      exact .lift (schematic_toNode (by simp [NodeView.toSlots, hhelper, helements]))

theorem lowerSpecific (hn : n.Schematic) (o : LoweringOptions) : (n.lowerSpecific o).Gives Node.Schematic := by
  unfold Node.lowerSpecific
  refine (hn.lowerByRules o.layout).bind (fun lowered hlowered => ?_)
  extract_lets finish
  have hfinish : ∀ lowered : Node, lowered.Schematic → (finish lowered).Gives Node.Schematic := by
    intro lowered hlowered
    refine (Work.Gives.ofTransformed hlowered.withUniqueTokens).bind (fun unique hunique => ?_)
    split
    · exact .fail
    · split
      · exact .andThen (fun _ => .pure hunique)
      · exact .pure hunique
  refine .andThen (fun state => ?_)
  split
  · exact (hlowered.withExtendsHelper _).bind hfinish
  · exact hfinish lowered hlowered

/-- **What a schematic tree is lowered to is schematic.** -/
theorem lower (hn : n.Schematic) (o : LoweringOptions) : (n.lower o).Gives (fun r => ∀ m, r = .ok m → m.Schematic) := by
  intro next m hm
  unfold Node.lower at hm
  split at hm
  · cases hm
  · split at hm
    · exact runFrom (hn.lowerSpecific o) _ _ hm
    · cases hm
      exact hn

end Node.Schematic

/-! ## Fields of typed views -/

/-- What the field of a typed view holds, by the shape of the slot. -/
def SlotShape.Field : SlotShape → Type
  | token => Token
  | optionalToken => Option Token
  | node => Node
  | optionalNode => Option Node
  | list => List Node
  | separatedList => SeparatedNodes

/-- The slot that a field makes. -/
def SlotShape.slot : (shape : SlotShape) → shape.Field → Slot
  | token, (t : Token) => .token t
  | optionalToken, (o : Option Token) => .ofToken? o
  | node, (n : Node) => .node n
  | optionalNode, (o : Option Node) => .ofNode? o
  | list, (ns : List Node) => .list ns
  | separatedList, (v : SeparatedNodes) => .separated v.members v.separators

/-- Fields for a row of shapes. -/
inductive Fields : List SlotShape → Type
  | nil : Fields []
  | cons {shape : SlotShape} {shapes : List SlotShape} (field : shape.Field) (rest : Fields shapes) :
    Fields (shape :: shapes)

def Fields.slots : {shapes : List SlotShape} → Fields shapes → List Slot
  | _, nil => []
  | shape :: _, cons field rest => shape.slot field :: rest.slots

/-- A new node of a kind with a field for each slot of the schema; nothing is checked. -/
def NodeKind.build (kind : NodeKind) (fields : Fields kind.shapes) : Fresh Node := Node.fresh kind fields.slots

theorem SlotShape.fits_iff {shape : SlotShape} {s : Slot} : s.fits shape = true ↔ ∃ field, shape.slot field = s := by
  constructor
  · intro h
    cases s with
    | absent =>
      cases shape with
      | optionalToken => exact ⟨(none : Option Token), rfl⟩
      | optionalNode => exact ⟨(none : Option Node), rfl⟩
      | _ => cases h
    | token t =>
      cases shape with
      | token => exact ⟨t, rfl⟩
      | optionalToken => exact ⟨some t, rfl⟩
      | _ => cases h
    | node n =>
      cases shape with
      | node => exact ⟨n, rfl⟩
      | optionalNode => exact ⟨some n, rfl⟩
      | _ => cases h
    | list ns =>
      cases shape with
      | list => exact ⟨ns, rfl⟩
      | _ => cases h
    | separated ns ts =>
      cases shape with
      | separatedList => exact ⟨SeparatedNodes.mk ns ts, rfl⟩
      | _ => cases h
  · rintro ⟨field, rfl⟩
    cases shape with
    | optionalToken => exact Slot.fits_ofToken? field
    | optionalNode => exact Slot.fits_ofNode? field
    | _ => rfl

/-- **The slots of a schema are those that fields make.** -/
theorem Fields.fitAll_iff : ∀ {shapes : List SlotShape} {slots : List Slot},
    Slot.FitAll shapes slots ↔ ∃ fields : Fields shapes, fields.slots = slots
  | [], slots => by
    rw [Slot.FitAll, List.forall₂_nil_left_iff]
    constructor
    · exact fun h => ⟨.nil, h.symm⟩
    · rintro ⟨fields, rfl⟩
      cases fields
      rfl
  | shape :: shapes, slots => by
    rw [Slot.FitAll, List.forall₂_cons_left_iff]
    constructor
    · rintro ⟨s, rest, hs, hrest, rfl⟩
      obtain ⟨field, rfl⟩ := SlotShape.fits_iff.1 hs
      obtain ⟨fields, rfl⟩ := fitAll_iff.1 hrest
      exact ⟨.cons field fields, rfl⟩
    · rintro ⟨fields, rfl⟩
      cases fields with
      | cons field fields =>
        exact ⟨_, _, SlotShape.fits_iff.2 ⟨field, rfl⟩, fitAll_iff.2 ⟨fields, rfl⟩, rfl⟩

/-! ## Operations -/

/-- A call of a function that makes code, with the nodes that it is given. -/
inductive Build.Call : List Node → Fresh Node → Prop
  | name (text : List Char) : Call [] (name text)
  | nameExpression (t : Token) : Call [] (nameExpression t)
  | thisExpression : Call [] thisExpression
  | literal (t : Token) : Call [] (literal t)
  | stringLiteral (value : List Char) : Call [] (stringLiteral value)
  | numericLiteral (text : List Char) : Call [] (numericLiteral text)
  | keywordLiteral (kind : TokenKind) : Call [] (keywordLiteral kind)
  | memberAccess (n : Node) (t : Token) : Call [n] (memberAccess n t)
  | memberPath (n : Node) (names : List (List Char)) : Call [n] (memberPath n names)
  | elementAccess (n m : Node) : Call [n, m] (elementAccess n m)
  | argumentList (ns : List Node) : Call ns (argumentList ns)
  | invocation (n : Node) (ns : List Node) : Call (n :: ns) (invocation n ns)
  | binary (n : Node) (kind : TokenKind) (m : Node) : Call [n, m] (binary n kind m)
  | assignment (n m : Node) : Call [n, m] (assignment n m)
  | prefixUnary (kind : TokenKind) (n : Node) : Call [n] (prefixUnary kind n)
  | postfixUnary (n : Node) (kind : TokenKind) : Call [n] (postfixUnary n kind)
  | arrayLiteral (ns : List Node) : Call ns (arrayLiteral ns)
  | parenthesized (n : Node) : Call [n] (parenthesized n)
  | propertyAssignment (t : Token) (n : Node) : Call [n] (propertyAssignment t n)
  | objectLiteral (t : Token) (ns : List Node) (ts : List Token) (u : Token) :
    Call ns (objectLiteral t (.separated ns ts) u)
  | emptyObject : Call [] emptyObject
  | expressionStatement (n : Node) : Call [n] (expressionStatement n)
  | returnStatement (o : Option Node) : Call o.toList (returnStatement o)
  | equalsValueClause (n : Node) : Call [n] (equalsValueClause n)
  | variableDeclaration (t : Token) (o : Option Node) : Call o.toList (variableDeclaration t o)
  | variableStatement (t : Token) (o : Option Node) : Call o.toList (variableStatement t o)
  | parameter (t : Token) : Call [] (parameter t)
  | parameterList (ns : List Node) : Call ns (parameterList ns)
  | callSignature (n : Node) : Call [n] (callSignature n)
  | block (t : Token) (ns : List Node) (u : Token) : Call ns (block t ns u)
  | functionExpression (n m : Node) : Call [n, m] (functionExpression n m)
  | functionDeclaration (t : Token) (n m : Node) : Call [n, m] (functionDeclaration t n m)
  | ifStatement (n m : Node) : Call [n, m] (ifStatement n m)

/-- The nodes that an answer puts in the place of a part. -/
def Answer.nodes : Answer → List Node
  | token _ => []
  | node rep => rep.nodes

/-- **One operation makes a node**, given some nodes.  Where rules rewrite a tree they are given it, and what they answer
on the way. -/
inductive Operation : List Node → Node → Prop
  | make {kind : NodeKind} {slots : List Slot} {next next' : ObjectId} {n : Node}
    (made : Node.make? kind slots next = (.ok n, next')) : Operation (slots.flatMap Slot.nodes) n
  | build (kind : NodeKind) (fields : Fields kind.shapes) (next : ObjectId) :
    Operation (fields.slots.flatMap Slot.nodes) (kind.build fields next).1
  | call {parts : List Node} {make : Fresh Node} (called : Build.Call parts make) (next : ObjectId) :
    Operation parts (make next).1
  | withLeading (n : Node) (trivia : TriviaList) (next : ObjectId) : Operation [n] (n.withLeading trivia next).1
  | withTrailing (n : Node) (trivia : TriviaList) (next : ObjectId) : Operation [n] (n.withTrailing trivia next).1
  | mapEdge {n m : Node} {edge : Edge} {change : Token → Fresh Token} {next next' : ObjectId}
    (mapped : n.mapEdge? edge change next = (some m, next')) : Operation [n] m
  | replaceToken (n : Node) (old new : Token) (next : ObjectId) : Operation [n] (n.replaceToken old new next).1
  | walk {ε σ : Type} {r : Transformer ε σ} {n m : Node} {s s₁ s' : Supplied σ} {answers : List Answer}
    (answered : r.Answered n.kind n.parts s answers s₁) (walked : r.walk n s = .ok m s') :
    Operation (n :: answers.flatMap Answer.nodes) m
  | root {ε σ : Type} {r : Transformer ε σ} {n m : Node} {s s₁ s' : Supplied σ} {rep : Replacement}
    (answered : r.node n s = .ok rep s₁) (rewritten : r.root n s = .ok m s') : Operation (n :: rep.nodes) m
  | reindent {n m : Node} {shift : Shift} {first : Bool} {next next' : ObjectId}
    (moved : n.reindented shift first next = (.ok m, next')) : Operation [n] m
  | uniqueTokens {n m : Node} {next next' : ObjectId} (copied : n.withUniqueTokens next = (.ok m, next')) :
    Operation [n] m
  | parse {text : List Char} {n : Node} {next next' : ObjectId} (parsed : parseFrom text next = (.ok n, next')) :
    Operation [] n
  | lower {n m : Node} {o : LoweringOptions} {next next' : ObjectId} (lowered : n.lower o next = (.ok m, next')) :
    Operation [n] m
  | child {n c : Node} (held : c ∈ n.children) : Operation [n] c

/-- Operations lead to the node. -/
inductive Obtainable : Node → Prop
  | of {parts : List Node} {n : Node} (operation : Operation parts n) (obtained : ∀ p ∈ parts, Obtainable p) :
    Obtainable n

/-! ## What operations keep -/

theorem Build.Call.schematic {parts : List Node} {make : Fresh Node} (h : Build.Call parts make)
    (hparts : AllSchematic parts) : make.Gives Node.Schematic := by
  have htoList : ∀ {o : Option Node}, AllSchematic o.toList → AllSchematic o := fun {o} h => by
    cases o with
    | none => exact AllSchematic.none
    | some n => simpa using h
  cases h with
  | name text => exact schematic_name text
  | nameExpression => exact schematic_nameExpression
  | thisExpression => exact schematic_thisExpression
  | literal => exact schematic_literal
  | stringLiteral value => exact schematic_stringLiteral value
  | numericLiteral text => exact schematic_numericLiteral text
  | keywordLiteral kind => exact schematic_keywordLiteral kind
  | memberAccess => exact schematic_memberAccess (by simpa using hparts)
  | memberPath n names => exact schematic_memberPath names (by simpa using hparts)
  | elementAccess => exact schematic_elementAccess (by simp_all) (by simp_all)
  | argumentList => exact schematic_argumentList hparts
  | invocation => exact schematic_invocation (by simp_all) (by simp_all)
  | binary n kind m => exact schematic_binary kind (by simp_all) (by simp_all)
  | assignment => exact schematic_assignment (by simp_all) (by simp_all)
  | prefixUnary kind => exact schematic_prefixUnary kind (by simpa using hparts)
  | postfixUnary n kind => exact schematic_postfixUnary kind (by simpa using hparts)
  | arrayLiteral => exact schematic_arrayLiteral hparts
  | parenthesized => exact schematic_parenthesized (by simpa using hparts)
  | propertyAssignment => exact schematic_propertyAssignment (by simpa using hparts)
  | objectLiteral => exact schematic_objectLiteral hparts
  | emptyObject => exact schematic_emptyObject
  | expressionStatement => exact schematic_expressionStatement (by simpa using hparts)
  | returnStatement => exact schematic_returnStatement (htoList hparts)
  | equalsValueClause => exact schematic_equalsValueClause (by simpa using hparts)
  | variableDeclaration => exact schematic_variableDeclaration (htoList hparts)
  | variableStatement => exact schematic_variableStatement (htoList hparts)
  | parameter => exact schematic_parameter
  | parameterList => exact schematic_parameterList hparts
  | callSignature => exact schematic_callSignature (by simpa using hparts)
  | block => exact schematic_block hparts
  | functionExpression => exact schematic_functionExpression (by simp_all) (by simp_all)
  | functionDeclaration => exact schematic_functionDeclaration (by simp_all) (by simp_all)
  | ifStatement => exact schematic_ifStatement (by simp_all) (by simp_all)

theorem allSchematic_flatMap_nodes {slots : List Slot} (h : ∀ n ∈ slots.flatMap Slot.nodes, n.Schematic) :
    AllSchematic slots :=
  AllSchematic.list_iff.2 (fun s hs n hn => h n (List.mem_flatMap.2 ⟨s, hs, hn⟩))

/-- **An operation makes a schematic tree of schematic trees.** -/
theorem Operation.schematic {parts : List Node} {n : Node} (h : Operation parts n)
    (hparts : ∀ p ∈ parts, p.Schematic) : n.Schematic := by
  -- Most operations take one tree.
  have hone : ∀ {m : Node}, parts = [m] → m.Schematic := fun hm => hparts _ (hm ▸ List.mem_singleton.2 rfl)
  cases h with
  | @make kind slots next next' _ made =>
    unfold Node.make? at made
    cases hchecked : kind.checkSlots slots with
    | error e =>
      rw [hchecked] at made
      cases made
    | ok =>
      rw [hchecked] at made
      cases made
      exact Node.schematic_iff.2 ⟨NodeKind.fits_of_checkSlots hchecked, allSchematic_flatMap_nodes hparts⟩
  | build kind fields next =>
    exact Node.schematic_iff.2 ⟨Fields.fitAll_iff.2 ⟨fields, rfl⟩, allSchematic_flatMap_nodes hparts⟩
  | call called next => exact called.schematic (AllSchematic.list_iff.2 (fun p hp => AllSchematic.node_iff.2 (hparts p hp))) next
  | withLeading n trivia next => exact (hone rfl).withLeading trivia next
  | withTrailing n trivia next => exact (hone rfl).withTrailing trivia next
  | @mapEdge n m edge change next next' mapped =>
    have hfound : AllSchematic (n.mapEdge? edge change next).1 := Node.schematic_mapEdge (hone rfl) next
    rw [mapped] at hfound
    simpa using hfound
  | replaceToken n old new next => exact (hone rfl).replaceToken next
  | walk answered walked =>
    obtain ⟨answers, s₁, hanswered, hmade⟩ := Transformer.walk_schematic (hparts _ List.mem_cons_self) walked
    obtain ⟨rfl, -⟩ := hanswered.unique answered
    exact hmade (fun rep hrep c hc => hparts c (List.mem_cons_of_mem _ (List.mem_flatMap.2 ⟨.node rep, hrep, hc⟩)))
  -- What takes the place of a root is one of the trees that were given.
  | @root ε σ r m n s s₁ s' rep answered rewritten =>
    refine hparts n (List.mem_cons_of_mem _ ?_)
    unfold Transformer.root at rewritten
    rw [Work.bind_of_ok answered] at rewritten
    split at rewritten <;> cases rewritten <;> exact List.mem_singleton.2 rfl
  | reindent moved => exact (hone rfl).reindented _ _ _ _ (congrArg Prod.fst moved)
  | uniqueTokens copied => exact (hone rfl).withUniqueTokens _ _ (congrArg Prod.fst copied)
  | parse parsed => exact (parseFrom_isProgram parsed).2.wellFormed.schematic
  | lower lowered => exact (hone rfl).lower _ _ _ (congrArg Prod.fst lowered)
  | child held => exact (hone rfl).child held

/-- **Every tree that operations lead to is schematic.** -/
theorem Obtainable.schematic {n : Node} (h : Obtainable n) : n.Schematic := by
  induction h with
  | of operation _ ih => exact operation.schematic ih

/-! ## Widths that are stored -/

/-- The widths that are stored in nodes and in what their slots hold.  A node, a list and a separated list each store,
when they are made, the sum of what is stored in their parts. -/
structure WidthCache where
  node : Node → Nat
  slot : Slot → Nat
  ofNode : ∀ n : Node, node n = (n.slots.map slot).sum
  absent : slot .absent = 0
  token : ∀ t : Token, slot (.token t) = t.fullWidth
  one : ∀ n : Node, slot (.node n) = node n
  list : ∀ ns : List Node, slot (.list ns) = (ns.map node).sum
  separated : ∀ (ns : List Node) (ts : List Token),
    slot (.separated ns ts) = (ns.map node).sum + (ts.map Token.fullWidth).sum

theorem Node.listFullWidth_eq_sum (ns : List Node) : Node.listFullWidth ns = (ns.map Node.fullWidth).sum := by
  induction ns with
  | nil => rfl
  | cons n ns ih => rw [Node.listFullWidth, ih, List.map_cons, List.sum_cons]

theorem Slot.allFullWidth_eq_sum (slots : List Slot) : Slot.allFullWidth slots = (slots.map Slot.fullWidth).sum := by
  induction slots with
  | nil => rfl
  | cons s slots ih => rw [Slot.allFullWidth, ih, List.map_cons, List.sum_cons]

theorem Token.widths_eq_sum (ts : List Token) : Token.widths ts = (ts.map Token.fullWidth).sum := by
  induction ts with
  | nil => rfl
  | cons t ts ih => rw [Token.widths, ih, List.map_cons, List.sum_cons]

namespace WidthCache

variable (cache : WidthCache)

/-- What is stored for a slot is its width, if that is so of the nodes that it holds. -/
theorem slot_eq {s : Slot} (h : ∀ n ∈ s.nodes, cache.node n = n.fullWidth) : cache.slot s = s.fullWidth := by
  cases s with
  | absent => exact cache.absent
  | token t => exact cache.token t
  | node n => exact (cache.one n).trans (h n (List.mem_singleton.2 rfl))
  | list ns =>
    have hmembers : ns.map cache.node = ns.map Node.fullWidth := List.map_congr_left h
    rw [cache.list, Slot.fullWidth, Node.listFullWidth_eq_sum, hmembers]
  | separated ns ts =>
    have hmembers : ns.map cache.node = ns.map Node.fullWidth := List.map_congr_left h
    rw [cache.separated, Slot.fullWidth, Node.listFullWidth_eq_sum, Token.widths_eq_sum, hmembers]

theorem node_eq (n : Node) : cache.node n = n.fullWidth := by
  induction n using Node.induction with
  | step n ih =>
    have hslots : n.slots.map cache.slot = n.slots.map Slot.fullWidth :=
      List.map_congr_left (fun s hs => cache.slot_eq (fun c hc => ih c (List.mem_flatMap.2 ⟨s, hs, hc⟩)))
    cases n
    rw [cache.ofNode, hslots, Node.fullWidth, Slot.allFullWidth_eq_sum]
    rfl

/-- The widths of the trees themselves. -/
def measured : WidthCache where
  node := Node.fullWidth
  slot := Slot.fullWidth
  ofNode n := by
    cases n
    exact Slot.allFullWidth_eq_sum _
  absent := rfl
  token _ := rfl
  one _ := rfl
  list ns := Node.listFullWidth_eq_sum ns
  separated ns ts := congrArg₂ Nat.add (Node.listFullWidth_eq_sum ns) (Token.widths_eq_sum ts)

end WidthCache

/-! ## The invariant -/

/-- What is at fault at a place is the arity of a separated list or a repeated token. -/
theorem Checkpoint.invariant_of_faultAfter {before : List Checkpoint} {p : Checkpoint} {fault : Fault}
    (h : p.faultAfter before = some fault) :
    fault.invariant = .separatedListArity ∨ fault.invariant = .tokenUniqueness := by
  cases p with
  | list owner members separators =>
    obtain ⟨-, hsome⟩ := Option.ite_none_right_eq_some.1 h
    cases hsome
    exact .inl rfl
  | token owner t =>
    obtain ⟨-, hsome⟩ := Option.ite_none_right_eq_some.1 h
    cases hsome
    exact .inr rfl

/-- **The representation of every tree that can be obtained is sound.**  The slots of each node match the schema, what is
stored as the width of each node and of each list and separated list is the number of bytes of its text, and so the check
can tell of the arity of a separated list or of a repeated token only. -/
theorem Obtainable.representation {n : Node} (h : Obtainable n) :
    (∀ m ∈ n.all, m.matchesSchema = true) ∧
    (∀ (cache : WidthCache), ∀ m ∈ n.all, cache.node m = Text.width m.fullText ∧
      ∀ s ∈ m.slots, cache.slot s = Text.width s.fullText) ∧
    ∀ v, n.checkInvariants = .error v →
      v.fault.invariant = .separatedListArity ∨ v.fault.invariant = .tokenUniqueness := by
  refine ⟨h.schematic, fun cache m _ => ⟨?_, fun s _ => ?_⟩, fun v herr => ?_⟩
  · rw [cache.node_eq, Node.fullWidth_eq]
  · rw [cache.slot_eq (fun c _ => cache.node_eq c), Slot.fullWidth_eq]
  · rcases Node.checkInvariants_cases h.schematic with ⟨hok, -⟩ | ⟨w, hw, before, p, behind, -, -, hfault, -⟩
    · rw [hok] at herr
      cases herr
    · rw [hw] at herr
      cases herr
      exact Checkpoint.invariant_of_faultAfter hfault

/-- Arguments that are nothing but a comma. -/
def Node.strayComma : Node :=
  .mk 3 .argumentList [.token ⟨0, .ofKind (.punctuation .openParen)⟩,
    .separated [] [⟨1, .ofKind (.punctuation .comma)⟩], .token ⟨2, .ofKind (.punctuation .closeParen)⟩]

/-- The list has too few members for its separators: it can be made, it matches the schema and has its width, and the
check tells of its arity. -/
theorem Obtainable.representation_strayComma :
    Obtainable .strayComma ∧ Node.strayComma.checkInvariants = .error ⟨.arity 0 1, .argumentList, 1⟩ ∧
      (∀ m ∈ Node.strayComma.all, m.matchesSchema = true) ∧
      (∀ m ∈ Node.strayComma.all, m.fullWidth = Text.width m.fullText ∧
        ∀ s ∈ m.slots, s.fullWidth = Text.width s.fullText) ∧
      Fault.invariant (.arity 0 1) = .separatedListArity := by
  have made : Node.make? .argumentList Node.strayComma.slots 3 = (.ok .strayComma, 4) := rfl
  have checked : Node.strayComma.checkInvariants = .error ⟨.arity 0 1, .argumentList, 1⟩ := by decide
  have obtained : Obtainable .strayComma := .of (.make made) (fun p hp => absurd hp List.not_mem_nil)
  obtain ⟨hshapes, hwidths, hfault⟩ := Obtainable.representation obtained
  refine ⟨obtained, checked, hshapes, hwidths .measured, (hfault _ checked).resolve_right ?_⟩
  decide

end Downlevel
