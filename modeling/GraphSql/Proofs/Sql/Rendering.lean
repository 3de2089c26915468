import GraphSql.Proofs.Sql.Literals

namespace GraphSql.Sql

-- The tokens of a statement determine what it was built from: a reader gets back the joined
-- sequence, with the nesting of its parts and the conditions of each join, and every other clause.

mutual

inductive Member where
  | table (relation : Relation)
  | nested (sequence : Chain)

inductive Chain where
  | first (member : Member)
  | join (init : Chain) (kind : JoinKind) (last : Member) (on : List Condition)

end

def Chain.asMember : Chain → Member
  | .first member => member
  | .join init kind last on => .nested (.join init kind last on)

mutual

def Member.relations : Member → List Relation
  | .table relation => [relation]
  | .nested sequence => sequence.relations

def Chain.relations : Chain → List Relation
  | .first member => member.relations
  | .join init _ last _ => init.relations ++ last.relations

end

mutual

inductive Piece where
  | table (relation : Relation) (pattern : TriplePattern)
  | sequence (assembly : Assembly)

-- A sequence starts from one piece, and further ones are joined to it with any conditions.
inductive Assembly where
  | new (piece : Piece)
  | add (before : Assembly) (kind : JoinKind) (piece : Piece) (on : List Condition)

end

mutual

def Piece.tree : Piece → JoinTree
  | .table relation pattern => .table relation pattern
  | .sequence assembly => assembly.tree

def Assembly.tree : Assembly → JoinTree
  | .new piece => .start piece.tree
  | .add before kind piece on => before.tree.add kind piece.tree on

end

mutual

def Piece.member : Piece → Member
  | .table relation _ => .table relation
  | .sequence assembly => assembly.chain.asMember

def Assembly.chain : Assembly → Chain
  | .new piece => .first piece.member
  | .add before kind piece on => .join before.chain kind piece.member (distinct on)

end

def Side.ofName? : String → Option Side
  | "s" => some .subject
  | "o" => some .object
  | _ => none

def Operand.ofToken? : Token → Option Operand
  | .column table side => (Side.ofName? side).map fun side => .column ⟨table, side⟩
  | .literal text => some (.value text)
  | _ => none

def operatorOf? : Token → Option String
  | .equals => some "="
  | .operator text => some text
  | _ => none

def Condition.ofTokens? (left operator right : Token) : Option Condition := do
  return ⟨← Operand.ofToken? left, ← operatorOf? operator, ← Operand.ofToken? right⟩

def nextWord? : List Token → Option Keyword
  | .space :: .keyword word :: _ => some word
  | _ => none

def readConditions : List Token → Option (List Condition × List Token)
  | left :: .space :: operator :: .space :: right :: rest =>
    match Condition.ofTokens? left operator right, rest with
    | none, _ => none
    | some condition, .space :: .keyword .AND :: .space :: rest =>
      (readConditions rest).map fun (others, rest) => (condition :: others, rest)
    | some condition, rest => some ([condition], rest)
  | _ => none

def readOn : List Token → Option (List Condition × List Token)
  | .space :: .keyword .ON :: .space :: .openParen :: rest =>
    match readConditions rest with
    | some (conditions, .closeParen :: rest) => some (conditions, rest)
    | _ => none
  | rest => some ([], rest)

theorem length_readConditions {tokens rest : List Token} {conditions : List Condition}
    (read : readConditions tokens = some (conditions, rest)) : rest.length ≤ tokens.length := by
  fun_induction readConditions tokens generalizing conditions with
  | case1 => cases read
  | case2 left operator right condition later found ih =>
    obtain ⟨⟨others, rest⟩, read, same⟩ := Option.map_eq_some_iff.mp read
    cases same
    have shorter := ih read
    simp only [List.length_cons]
    omega
  | case3 =>
    cases read
    simp only [List.length_cons]
    omega
  | case4 => cases read

theorem length_readOn {tokens rest : List Token} {conditions : List Condition}
    (read : readOn tokens = some (conditions, rest)) : rest.length ≤ tokens.length := by
  unfold readOn at read
  split at read
  next =>
    split at read
    next inside =>
      cases read
      have shorter := length_readConditions inside
      simp only [List.length_cons] at shorter ⊢
      omega
    next => cases read
  next =>
    cases read
    exact Nat.le_refl _

inductive Slot where
  | start
  | next (init : Chain) (kind : JoinKind)

mutual

-- Reads a sequence from its next member on, up to the end of the outermost one. `outer` has the
-- places of the parentheses that are open, the innermost first.
def readMember (outer : List Slot) (slot : Slot) (tokens : List Token) :
    Option (Chain × List Token) :=
  match tokens with
  | .openParen :: rest => readMember (slot :: outer) .start rest
  | .name name :: .space :: .keyword .AS :: .space :: .name aliasName :: rest =>
    readAfter outer slot (.table ⟨name, aliasName⟩) rest
  | .name name :: rest => readAfter outer slot (.table ⟨name, name⟩) rest
  | _ => none
termination_by 2 * tokens.length

def readAfter (outer : List Slot) (slot : Slot) (member : Member) (tokens : List Token) :
    Option (Chain × List Token) :=
  match slot with
  | .start => readJoins outer (.first member) tokens
  | .next init kind =>
    match clause : readOn tokens with
    | none => none
    | some (on, rest) =>
      have := length_readOn clause
      readJoins outer (.join init kind member on) rest
termination_by 2 * tokens.length + 1

def readJoins (outer : List Slot) (chain : Chain) (tokens : List Token) :
    Option (Chain × List Token) :=
  match tokens, outer with
  | .space :: .keyword .JOIN :: .space :: rest, outer => readMember outer (.next chain .inner) rest
  | .space :: .keyword .LEFT_OUTER_JOIN :: .space :: rest, outer =>
    readMember outer (.next chain .left) rest
  | .closeParen :: rest, slot :: outer => readAfter outer slot (.nested chain) rest
  | rest, [] => some (chain, rest)
  | _, _ => none
termination_by 2 * tokens.length

end

def Chain.read? (tokens : List Token) : Option Chain :=
  match readMember [] .start tokens with
  | some (chain, []) => some chain
  | _ => none

structure Statement where
  columns : List Column
  source : Chain
  conditions : List Condition
  order : Option (Column × SortOrder)

def readColumns : List Token → Option (List Column × List Token)
  | .column table side :: rest =>
    match Side.ofName? side, rest with
    | none, _ => none
    | some side, .comma :: .space :: rest =>
      (readColumns rest).map fun (others, rest) => (⟨table, side⟩ :: others, rest)
    | some side, rest => some ([⟨table, side⟩], rest)
  | rest => some ([], rest)

def readWhere : List Token → Option (List Condition × List Token)
  | .space :: .keyword .WHERE :: .space :: rest => readConditions rest
  | rest => some ([], rest)

def SortOrder.ofKeyword? : Keyword → Option SortOrder
  | .ASC => some .ascending
  | .DESC => some .descending
  | _ => none

def readOrder : List Token → Option (Option (Column × SortOrder))
  | [] => some none
  | [.space, .keyword .ORDER_BY, .space, .column table side, .space, .keyword word] => do
    return some (⟨table, ← Side.ofName? side⟩, ← SortOrder.ofKeyword? word)
  | _ => none

def Statement.read? : List Token → Option Statement
  | .keyword .SELECT :: .space :: rest => do
    match ← readColumns rest with
    | (columns, .space :: .keyword .FROM :: .space :: rest) =>
      let (source, rest) ← readMember [] .start rest
      let (conditions, rest) ← readWhere rest
      return ⟨columns, source, conditions, ← readOrder rest⟩
    | _ => none
  | _ => none

theorem Side.ofName?_name (side : Side) : Side.ofName? side.name = some side := by
  cases side <;> rfl

theorem Operand.ofToken?_token (operand : Operand) : ofToken? operand.token = some operand := by
  cases operand with
  | column c => simp [token, Column.token, ofToken?, Side.ofName?_name]
  | value text => rfl

theorem operatorOf?_token (operator : String) :
    operatorOf? (if operator = "=" then .equals else .operator operator) = some operator := by
  split
  next equal => rw [equal]; rfl
  next => rfl

theorem Condition.ofTokens?_tokens (c : Condition) :
    ofTokens? c.left.token (if c.operator = "=" then .equals else .operator c.operator)
      c.right.token = some c := by
  simp only [ofTokens?, Operand.ofToken?_token, operatorOf?_token]
  rfl

theorem readConditions_last (c : Condition) {rest : List Token}
    (ends : nextWord? rest ≠ some .AND) : readConditions (c.tokens ++ rest) = some ([c], rest) := by
  simp only [Condition.tokens, List.cons_append, List.nil_append]
  rw [readConditions.eq_def]
  simp only [c.ofTokens?_tokens]
  split
  next impossible => cases impossible
  next => exact absurd rfl ends
  next same _ =>
    cases same
    rfl

theorem readConditions_and (c : Condition) (rest : List Token) :
    readConditions (c.tokens ++ ([.space, .keyword .AND, .space] ++ rest)) =
      (readConditions rest).map fun (others, rest) => (c :: others, rest) := by
  simp only [Condition.tokens, List.cons_append, List.nil_append]
  rw [readConditions.eq_def]
  simp only [c.ofTokens?_tokens]

theorem readConditions_conjunction {conditions : List Condition} {rest : List Token}
    (used : conditions ≠ []) (ends : nextWord? rest ≠ some .AND) :
    readConditions (Condition.conjunction conditions ++ rest) = some (conditions, rest) := by
  induction conditions with
  | nil => contradiction
  | cons c others ih =>
    rw [conjunction_cons]
    split
    next last =>
      rw [last, List.append_nil]
      exact readConditions_last c ends
    next more =>
      rw [List.append_assoc, List.append_assoc, readConditions_and, ih more]
      rfl

theorem readOn_onTokens (conditions : List Condition) {rest : List Token}
    (ends : nextWord? rest ≠ some .ON) :
    readOn (onTokens conditions ++ rest) = some (conditions, rest) := by
  unfold onTokens
  split
  next none =>
    rw [List.isEmpty_iff.mp none, List.nil_append, readOn]
    rintro later rfl
    exact ends rfl
  next used =>
    have inside : readConditions (Condition.conjunction conditions ++ .closeParen :: rest) =
        some (conditions, .closeParen :: rest) :=
      readConditions_conjunction (mt List.isEmpty_iff.mpr used) (by simp [nextWord?])
    simp [readOn, inside]

theorem readMember_declaration (outer : List Slot) (slot : Slot) (relation : Relation)
    {rest : List Token} (ends : nextWord? rest ≠ some .AS) :
    readMember outer slot (relation.declaration ++ rest) =
      readAfter outer slot (.table relation) rest := by
  obtain ⟨name, aliasName⟩ := relation
  unfold Relation.declaration
  split
  next same =>
    cases same
    rw [List.singleton_append, readMember]
    rintro other later rfl
    exact ends rfl
  next => simp only [List.cons_append, List.nil_append, readMember]

theorem readJoins_join (outer : List Slot) (chain : Chain) (kind : JoinKind) (rest : List Token) :
    readJoins outer chain ([.space, .keyword kind.keyword, .space] ++ rest) =
      readMember outer (.next chain kind) rest := by
  cases kind <;> simp only [JoinKind.keyword, List.cons_append, List.nil_append, readJoins]

theorem readJoins_end (chain : Chain) {rest : List Token} (noInner : nextWord? rest ≠ some .JOIN)
    (noLeft : nextWord? rest ≠ some .LEFT_OUTER_JOIN) :
    readJoins [] chain rest = some (chain, rest) := by
  rw [readJoins]
  · rintro later rfl
    exact noInner rfl
  · rintro later rfl
    exact noLeft rfl

theorem readAfter_next (outer : List Slot) (init : Chain) (kind : JoinKind) (member : Member)
    (on : List Condition) {rest : List Token} (ends : nextWord? rest ≠ some .ON) :
    readAfter outer (.next init kind) member (onTokens on ++ rest) =
      readJoins outer (.join init kind member on) rest := by
  rw [readAfter.eq_def]
  simp only
  split
  next unread =>
    rw [readOn_onTokens on ends] at unread
    cases unread
  next read =>
    rw [readOn_onTokens on ends] at read
    cases read
    rfl

namespace JoinTree

def chain : JoinTree → Chain
  | .table relation _ => .first (.table relation)
  | .group first => .first first.chain.asMember
  | .join init kind last on => .join init.chain kind last.chain.asMember on

-- The tokens are read as what they stand for, both as a whole clause and as a member. What follows
-- them must not look like a part of the last table or join.
structure Legible (t : JoinTree) : Prop where
  whole : ∀ outer rest, nextWord? rest ≠ some .AS → nextWord? rest ≠ some .ON →
    readMember outer .start (t.tokens ++ rest) = readJoins outer t.chain rest
  member : ∀ outer slot rest, nextWord? rest ≠ some .AS →
    readMember outer slot (t.declaration ++ rest) = readAfter outer slot t.chain.asMember rest

theorem legible_table (relation : Relation) (pattern : TriplePattern) :
    Legible (.table relation pattern) where
  whole outer rest noAlias _ := by
    rw [tokens, readMember_declaration outer .start relation noAlias, readAfter, chain]
  member outer slot rest noAlias := readMember_declaration outer slot relation noAlias

theorem legible_group {first : JoinTree} (legible : first.Legible) : Legible (.group first) where
  whole outer rest noAlias _ := by
    have read := legible.member outer .start rest noAlias
    rw [readAfter] at read
    exact read
  member := legible.member

theorem readMember_join {init last : JoinTree} (first : init.Legible) (second : last.Legible)
    (kind : JoinKind) (on : List Condition) {outer : List Slot} {rest : List Token}
    (noAlias : nextWord? rest ≠ some .AS) (noClause : nextWord? rest ≠ some .ON) :
    readMember outer .start ((join init kind last on).tokens ++ rest) =
      readJoins outer (join init kind last on).chain rest := by
  have behind : nextWord? (onTokens on ++ rest) ≠ some .AS := by
    unfold onTokens
    split
    next => exact noAlias
    next => simp [nextWord?]
  calc readMember outer .start ((join init kind last on).tokens ++ rest)
      = readMember outer .start (init.tokens ++ ([.space, .keyword kind.keyword, .space] ++
          (last.declaration ++ (onTokens on ++ rest)))) := by
        simp only [tokens, declaration, List.append_assoc]
    _ = readJoins outer init.chain ([.space, .keyword kind.keyword, .space] ++
          (last.declaration ++ (onTokens on ++ rest))) := by
        refine first.whole _ _ ?_ ?_ <;> cases kind <;> simp [nextWord?, JoinKind.keyword]
    _ = readAfter outer (.next init.chain kind) last.chain.asMember (onTokens on ++ rest) := by
        rw [readJoins_join, second.member _ _ _ behind]
    _ = readJoins outer (join init kind last on).chain rest := by
        rw [readAfter_next _ _ _ _ _ noClause, chain]

theorem legible_join {init last : JoinTree} (first : init.Legible) (second : last.Legible)
    (kind : JoinKind) (on : List Condition) : Legible (.join init kind last on) where
  whole _ _ noAlias noClause := readMember_join first second kind on noAlias noClause
  member outer slot rest _ := by
    have shape : (join init kind last on).declaration ++ rest =
        .openParen :: ((join init kind last on).tokens ++ .closeParen :: rest) := by
      simp [declaration, isLong, parenthesized]
    rw [shape, readMember, readMember_join first second kind on, readJoins, chain, Chain.asMember]
    · simp [nextWord?]
    · simp [nextWord?]

theorem legible (t : JoinTree) : t.Legible := by
  induction t with
  | table relation pattern => exact legible_table relation pattern
  | group first ih => exact legible_group ih
  | join init kind last on ihInit ihLast => exact legible_join ihInit ihLast kind on

theorem read?_tokens (t : JoinTree) : Chain.read? t.tokens = some t.chain := by
  have read := t.legible.whole [] [] (by simp [nextWord?]) (by simp [nextWord?])
  rw [List.append_nil, readJoins_end _ (by simp [nextWord?]) (by simp [nextWord?])] at read
  rw [Chain.read?, read]

theorem chain_start (t : JoinTree) : (start t).chain = .first t.chain.asMember := by
  cases t <;> rfl

theorem relations_chain (t : JoinTree) : t.chain.relations = t.leaves.map (·.1) := by
  have member : ∀ chain : Chain, chain.asMember.relations = chain.relations := by
    intro chain
    cases chain <;> rfl
  induction t with
  | table relation pattern => rfl
  | group first ih => rw [chain, Chain.relations, member, ih, leaves]
  | join init kind last on ihInit ihLast =>
    rw [chain, Chain.relations, member, ihInit, ihLast, leaves, List.map_append]

end JoinTree

mutual

theorem Piece.member_tree (piece : Piece) : piece.tree.chain.asMember = piece.member := by
  match piece with
  | .table relation pattern => rfl
  | .sequence assembly => rw [Piece.tree, assembly.chain_tree, Piece.member]

theorem Assembly.chain_tree (assembly : Assembly) : assembly.tree.chain = assembly.chain := by
  match assembly with
  | .new piece => rw [Assembly.tree, JoinTree.chain_start, piece.member_tree, Assembly.chain]
  | .add before kind piece on =>
    rw [Assembly.tree, JoinTree.add, JoinTree.chain, before.chain_tree, piece.member_tree,
      Assembly.chain]

end

theorem readColumns_tokens (columns : List Column) (rest : List Token) :
    readColumns (joinTokens [.comma, .space] (columns.map ([·.token])) ++ .space :: rest) =
      some (columns, .space :: rest) := by
  induction columns with
  | nil => rfl
  | cons column others ih =>
    rw [List.map_cons, joinTokens_cons]
    split
    next last =>
      rw [List.map_eq_nil_iff.mp last, List.append_nil, List.singleton_append, Column.token,
        readColumns.eq_def]
      simp only [Side.ofName?_name]
    next more =>
      simp only [List.cons_append, List.nil_append]
      rw [Column.token, readColumns.eq_def]
      simp only [Side.ofName?_name, ih, Option.map_some]

theorem readWhere_tokens (conditions : List Condition) {rest : List Token}
    (noMore : nextWord? rest ≠ some .AND) (noClause : nextWord? rest ≠ some .WHERE) :
    readWhere (Select.whereTokens conditions ++ rest) = some (conditions, rest) := by
  unfold Select.whereTokens
  split
  next none =>
    rw [List.isEmpty_iff.mp none, List.nil_append, readWhere]
    rintro later rfl
    exact noClause rfl
  next used =>
    rw [List.append_assoc]
    exact readConditions_conjunction (mt List.isEmpty_iff.mpr used) noMore

theorem readOrder_tokens (order : Option (Column × SortOrder)) :
    readOrder (Select.orderTokens order) = some order := by
  cases order with
  | none => rfl
  | some order =>
    obtain ⟨⟨table, side⟩, direction⟩ := order
    cases side <;> cases direction <;> rfl

theorem nextWord?_clauses {conditions : List Condition} {order : Option (Column × SortOrder)}
    {word : Keyword} (next : nextWord? (Select.whereTokens conditions ++ Select.orderTokens order) =
      some word) : word = .WHERE ∨ word = .ORDER_BY := by
  unfold Select.whereTokens at next
  split at next
  next =>
    cases order with
    | none => cases next
    | some order =>
      cases next
      exact .inr rfl
  next =>
    cases next
    exact .inl rfl

theorem Select.read?_tokens (s : Select) :
    Statement.read? s.tokens = some ⟨s.columns, s.source.chain, s.conditions, s.order⟩ := by
  have other : ∀ {word : Keyword}, word ≠ .WHERE → word ≠ .ORDER_BY →
      nextWord? (whereTokens s.conditions ++ orderTokens s.order) ≠ some word := by
    intro word noWhere noOrder next
    rcases nextWord?_clauses next with rfl | rfl
    · exact noWhere rfl
    · exact noOrder rfl
  have source : readMember [] .start (s.source.tokens ++
      (whereTokens s.conditions ++ orderTokens s.order)) =
        some (s.source.chain, whereTokens s.conditions ++ orderTokens s.order) := by
    rw [s.source.legible.whole _ _ (other (by decide) (by decide)) (other (by decide) (by decide)),
      readJoins_end _ (other (by decide) (by decide)) (other (by decide) (by decide))]
  have conditions : readWhere (whereTokens s.conditions ++ orderTokens s.order) =
      some (s.conditions, orderTokens s.order) := by
    apply readWhere_tokens
    · cases s.order <;> simp [orderTokens, nextWord?]
    · cases s.order <;> simp [orderTokens, nextWord?]
  simp only [tokens, List.append_assoc, List.cons_append, List.nil_append, Statement.read?,
    readColumns_tokens, Option.bind_eq_bind, Option.bind_some, source, conditions, readOrder_tokens,
    Option.pure_def]

-- For everything that can be put together by joining: the tokens of the sequence give back its
-- joins, its tables in the order of the aliases, their nesting and the conditions of each join, and
-- the tokens of a statement over it give back every clause.
theorem Assembly.recovered_from_tokens (assembly : Assembly) (columns : List Column)
    (conditions : List Condition) (order : Option (Column × SortOrder)) :
    Chain.read? assembly.tree.tokens = some assembly.chain ∧
      assembly.chain.relations.map (·.aliasName) = assembly.tree.aliases ∧
      Statement.read? (Select.tokens ⟨columns, assembly.tree, conditions, order⟩) =
        some ⟨columns, assembly.chain, conditions, order⟩ := by
  refine ⟨?_, ?_, ?_⟩
  · rw [JoinTree.read?_tokens, assembly.chain_tree]
  · rw [← assembly.chain_tree, JoinTree.relations_chain, List.map_map]
    rfl
  · rw [Select.read?_tokens, assembly.chain_tree]

end GraphSql.Sql
