import GraphSql.Proofs.Planning.Conditions
import GraphSql.Sql.Select

namespace GraphSql.Sql

-- The string literals in the text of a statement.

-- Reads the literals of a text. `inside` is what has been read of the literal in which the text
-- stands, if it does. There is no result if the text ends in a literal.
def scan (backslash : Bool) (inside : Option (List Char)) : List Char → Option (List String)
  | [] => if inside.isNone then some [] else none
  | c :: rest =>
    match inside with
    | none => scan backslash (if c = '\'' then some [] else none) rest
    | some read =>
      if c = '\'' then
        match rest with
        | '\'' :: rest => scan backslash (some (read ++ ['\''])) rest
        | rest => (scan backslash none rest).map (String.ofList read :: ·)
      else if c = '\\' ∧ backslash = true then
        match rest with
        | [] => none
        | d :: rest => scan backslash (some (read ++ [d])) rest
      else scan backslash (some (read ++ [c])) rest

def literals (d : Dialect) (text : String) : Option (List String) :=
  scan d.escapesBackslash none text.toList

theorem scan_outside {front : List Char} (backslash : Bool) (quoteless : '\'' ∉ front)
    (rest : List Char) : scan backslash none (front ++ rest) = scan backslash none rest := by
  induction front with
  | nil => rfl
  | cons c front ih =>
    rw [List.mem_cons, not_or] at quoteless
    rw [List.cons_append, scan, if_neg (Ne.symm quoteless.1)]
    exact ih quoteless.2

theorem scan_close {backslash : Bool} {read rest : List Char} (apart : rest.head? ≠ some '\'') :
    scan backslash (some read) ('\'' :: rest) =
      (scan backslash none rest).map (String.ofList read :: ·) := by
  rw [scan.eq_def]
  simp only [if_true]
  split
  next => simp at apart
  next => rfl

theorem scan_quoteInner (backslash : Bool) {rest : List Char} (apart : rest.head? ≠ some '\'')
    (text read : List Char) :
    scan backslash (some read) (quoteInner backslash text ++ '\'' :: rest) =
      (scan backslash none rest).map (String.ofList (read ++ text) :: ·) := by
  induction text generalizing read with
  | nil =>
    rw [quoteInner, List.nil_append, List.append_nil]
    exact scan_close apart
  | cons c text ih =>
    have next : read ++ c :: text = read ++ [c] ++ text := by simp
    rw [next, ← ih, quoteInner]
    by_cases quote : c = '\''
    · subst quote
      simp [scan]
    · by_cases escape : c = '\\' ∧ backslash = true
      · obtain ⟨rfl, rfl⟩ := escape
        simp [scan]
      · rw [if_neg (by simp [quote, escape]), List.cons_append, scan.eq_def]
        simp only [if_neg quote, if_neg escape]

theorem scan_quote {backslash : Bool} {rest : List Char} (apart : rest.head? ≠ some '\'')
    (text : String) :
    scan backslash none ((quote backslash text).toList ++ rest) =
      (scan backslash none rest).map (text :: ·) := by
  have opened := scan_quoteInner backslash apart text.toList []
  rw [List.nil_append, String.ofList_toList] at opened
  rw [← opened, quote, String.toList_ofList]
  simp [scan]

def Quoteless (text : String) : Prop := '\'' ∉ text.toList

instance (text : String) : Decidable (Quoteless text) := inferInstanceAs (Decidable (_ ∉ _))

theorem literals_of_quoteless {text : String} (d : Dialect) (quoteless : Quoteless text) :
    literals d text = some [] := by
  have outside := scan_outside d.escapesBackslash quoteless []
  rwa [List.append_nil] at outside

theorem Quoteless.append {first second : String} (one : Quoteless first) (two : Quoteless second) :
    Quoteless (first ++ second) := by
  simp only [Quoteless, String.toList_append, List.mem_append, not_or]
  exact ⟨one, two⟩

theorem quoteless_trim {text : String} (quoteless : Quoteless text) :
    Quoteless (Text.trim text) := by
  intro member
  rw [Text.trim, String.toList_ofList] at member
  exact quoteless (Text.mem_of_mem_trimChars member)

namespace Token

def literal? : Token → Option String
  | .literal text => some text
  | _ => none

def Quiet : Token → Prop
  | .operator text | .name text => Quoteless text
  | .column table side => Quoteless table ∧ Quoteless side
  | _ => True

theorem quoteless_render {t : Token} (d : Dialect) (quiet : t.Quiet) (other : t.literal? = none) :
    Quoteless (t.render d) := by
  cases t with
  | keyword word =>
    rw [render]
    cases word <;> decide
  | comma | star | openParen | closeParen | equals | space =>
    rw [render]
    decide
  | operator text => exact quoteless_trim quiet
  | name text => exact quiet
  | column table side => exact (quiet.1.append (by decide)).append quiet.2
  | literal text => cases other

end Token

-- The end of a list of tokens, or a blank or closing parenthesis: what may follow a literal.
def Opens : List Token → Prop
  | [] => True
  | t :: _ => t = .space ∨ t = .closeParen

inductive Clean : List Token → Prop where
  | nil : Clean []
  | literal (opens : Opens rest) (clean : Clean rest) : Clean (.literal text :: rest)
  | other (different : t.literal? = none) (quiet : t.Quiet) (clean : Clean rest) :
      Clean (t :: rest)

theorem Opens.head? {tokens : List Token} (opens : Opens tokens) (d : Dialect) :
    (Token.renderAll d tokens).toList.head? ≠ some '\'' := by
  cases tokens with
  | nil => simp [Token.renderAll]
  | cons t rest =>
    rw [Token.renderAll, List.map_cons, String.join_cons, String.toList_append]
    rcases opens with rfl | rfl
    · simp [Token.render]
    · simp [Token.render]

theorem Clean.literals {tokens : List Token} (clean : Clean tokens) (d : Dialect) :
    Sql.literals d (Token.renderAll d tokens) = some (tokens.filterMap Token.literal?) := by
  unfold Sql.literals
  induction clean with
  | nil => rfl
  | literal opens clean ih =>
    have apart := opens.head? d
    rw [Token.renderAll] at ih apart
    rw [Token.renderAll, List.map_cons, String.join_cons, String.toList_append, Token.render,
      scan_quote apart, ih]
    rfl
  | other different quiet clean ih =>
    rw [Token.renderAll] at ih
    rw [Token.renderAll, List.map_cons, String.join_cons, String.toList_append,
      scan_outside _ (Token.quoteless_render d quiet different), ih,
      List.filterMap_cons_none different]

theorem Clean.append {first second : List Token} (one : Clean first) (two : Clean second)
    (opens : Opens second) : Clean (first ++ second) := by
  induction one with
  | nil => exact two
  | literal after clean ih =>
    refine .literal ?_ ih
    rename_i rest _
    cases rest with
    | nil => exact opens
    | cons t rest => exact after
  | other different quiet clean ih => exact .other different quiet ih

theorem Clean.after {first second : List Token}
    (plain : ∀ t ∈ first, t.literal? = none ∧ t.Quiet) (clean : Clean second) :
    Clean (first ++ second) := by
  induction first with
  | nil => exact clean
  | cons t first ih =>
    have here := plain t (by simp)
    exact .other here.1 here.2 (ih fun t member => plain t (by simp [member]))

namespace Operand

def values : Operand → List String
  | .column _ => []
  | .value text => [text]

end Operand

namespace Condition

def values (c : Condition) : List String := c.left.values ++ c.right.values

structure Quiet (c : Condition) : Prop where
  operator : Quoteless c.operator
  columns : ∀ column ∈ c.columns, Quoteless column.table

end Condition

theorem quiet_column {column : Column} (quoteless : Quoteless column.table) :
    column.token.literal? = none ∧ column.token.Quiet := by
  refine ⟨rfl, quoteless, ?_⟩
  cases column.side <;> decide

theorem Operand.clean {operand : Operand} {rest : List Token}
    (quiet : ∀ column ∈ operand.columns, Quoteless column.table) (clean : Clean rest)
    (opens : Opens rest) : Clean (operand.token :: rest) := by
  cases operand with
  | column c =>
    have here := quiet_column (quiet c (by simp [columns]))
    exact .other here.1 here.2 clean
  | value text => exact .literal opens clean

theorem Condition.Quiet.clean {c : Condition} (quiet : c.Quiet) : Clean c.tokens := by
  have left : ∀ column ∈ c.left.columns, Quoteless column.table := fun column member =>
    quiet.columns column (List.mem_append_left _ member)
  have right : ∀ column ∈ c.right.columns, Quoteless column.table := fun column member =>
    quiet.columns column (List.mem_append_right _ member)
  refine Operand.clean left ?_ (.inl rfl)
  refine .other rfl trivial ?_
  have last : Clean [.space, c.right.token] :=
    .other rfl trivial (Operand.clean right .nil trivial)
  split
  next => exact .other rfl trivial last
  next => exact .other rfl quiet.operator last

theorem joinTokens_cons (between part : List Token) (rest : List (List Token)) :
    joinTokens between (part :: rest) =
      part ++ if rest = [] then [] else between ++ joinTokens between rest := by
  cases rest with
  | nil => simp [joinTokens, List.intercalate]
  | cons other rest => simp [joinTokens, List.intercalate]

theorem conjunction_cons (c : Condition) (rest : List Condition) :
    Condition.conjunction (c :: rest) = c.tokens ++
      if rest = [] then [] else [.space, .keyword .AND, .space] ++ Condition.conjunction rest := by
  rw [Condition.conjunction, List.map_cons, joinTokens_cons]
  simp only [List.map_eq_nil_iff]
  rfl

theorem clean_conjunction {conditions : List Condition} (quiet : ∀ c ∈ conditions, c.Quiet) :
    Clean (Condition.conjunction conditions) := by
  induction conditions with
  | nil => exact .nil
  | cons c rest ih =>
    have first := (quiet c (by simp)).clean
    have later := ih fun c member => quiet c (by simp [member])
    rw [conjunction_cons]
    split
    next => exact first.append .nil trivial
    next =>
      refine first.append ?_ (.inl rfl)
      exact later.after (by simp [Token.literal?, Token.Quiet])

theorem literals_conjunction (conditions : List Condition) :
    (Condition.conjunction conditions).filterMap Token.literal? =
      conditions.flatMap Condition.values := by
  have tokens : ∀ c : Condition, c.tokens.filterMap Token.literal? = c.values := by
    intro c
    obtain ⟨left, operator, right⟩ := c
    simp only [Condition.tokens, Condition.values]
    by_cases equal : operator = "="
    · rw [if_pos equal]
      cases left <;> cases right <;> rfl
    · rw [if_neg equal]
      cases left <;> cases right <;> rfl
  induction conditions with
  | nil => rfl
  | cons c rest ih =>
    rw [conjunction_cons, List.filterMap_append, tokens, List.flatMap_cons, ← ih]
    split
    next none =>
      rw [none]
      rfl
    next => rfl

theorem clean_on {conditions : List Condition} (quiet : ∀ c ∈ conditions, c.Quiet) :
    Clean (onTokens conditions) ∧ Opens (onTokens conditions) := by
  unfold onTokens
  split
  next => exact ⟨.nil, trivial⟩
  next =>
    refine ⟨?_, .inl rfl⟩
    have inner : Clean (Condition.conjunction conditions ++ [.closeParen]) :=
      (clean_conjunction quiet).append (.other rfl trivial .nil) (.inr rfl)
    rw [List.append_assoc]
    exact inner.after (by simp [Token.literal?, Token.Quiet])

theorem literals_on (conditions : List Condition) :
    (onTokens conditions).filterMap Token.literal? = conditions.flatMap Condition.values := by
  rw [← literals_conjunction]
  unfold onTokens
  split
  next none =>
    rw [List.isEmpty_iff.mp none]
    rfl
  next =>
    rw [List.filterMap_append]
    exact List.append_nil _

namespace JoinTree

structure Quiet (t : JoinTree) : Prop where
  tables : ∀ leaf ∈ t.leaves, Quoteless leaf.1.name ∧ Quoteless leaf.1.aliasName
  conditions : ∀ c ∈ t.conditions, c.Quiet

theorem clean_parenthesized (long : Bool) {tokens : List Token} (clean : Clean tokens) :
    Clean (parenthesized long tokens) := by
  unfold parenthesized
  split
  next =>
    refine .other rfl trivial (clean.append (.other rfl trivial .nil) (.inr rfl))
  next => exact clean

theorem literals_parenthesized (long : Bool) (tokens : List Token) :
    (parenthesized long tokens).filterMap Token.literal? = tokens.filterMap Token.literal? := by
  unfold parenthesized
  split
  next =>
    rw [List.filterMap_append]
    exact List.append_nil _
  next => rfl

theorem Quiet.clean {t : JoinTree} (quiet : t.Quiet) : Clean t.tokens := by
  induction t with
  | table relation pattern =>
    have both := quiet.tables (relation, pattern) (by simp [leaves])
    rw [tokens, Relation.declaration]
    split
    next => exact .other rfl both.1 .nil
    next =>
      have last : Clean [.name relation.aliasName] := .other rfl both.2 .nil
      exact .other rfl both.1 (.other rfl trivial (.other rfl trivial (.other rfl trivial last)))
  | group first ih => exact clean_parenthesized _ (ih ⟨quiet.tables, quiet.conditions⟩)
  | join init kind last on ihInit ihLast =>
    have inInit : init.Quiet :=
      ⟨fun leaf member => quiet.tables leaf (by simp [leaves, member]),
        fun c member => quiet.conditions c (by simp [JoinTree.conditions, member])⟩
    have inLast : last.Quiet :=
      ⟨fun leaf member => quiet.tables leaf (by simp [leaves, member]),
        fun c member => quiet.conditions c (by simp [JoinTree.conditions, member])⟩
    have clause : Clean (onTokens on) ∧ Opens (onTokens on) :=
      clean_on fun c member => quiet.conditions c (by simp [JoinTree.conditions, member])
    rw [tokens, List.append_assoc, List.append_assoc]
    refine (ihInit inInit).append ?_ (.inl rfl)
    refine Clean.after (by simp [Token.literal?, Token.Quiet]) ?_
    exact (clean_parenthesized _ (ihLast inLast)).append clause.1 clause.2

theorem literals_tokens (t : JoinTree) :
    t.tokens.filterMap Token.literal? = t.conditions.flatMap Condition.values := by
  induction t with
  | table relation pattern =>
    rw [tokens, Relation.declaration]
    split <;> rfl
  | group first ih => rw [tokens, literals_parenthesized, ih, JoinTree.conditions]
  | join init kind last on ihInit ihLast =>
    have between : [Token.space, .keyword kind.keyword, .space].filterMap Token.literal? = [] := rfl
    simp only [tokens, List.filterMap_append, between, literals_parenthesized, literals_on, ihInit,
      ihLast, JoinTree.conditions, List.flatMap_append, List.append_nil]

end JoinTree

namespace Select

def values (s : Select) : List String :=
  (s.source.conditions ++ s.conditions).flatMap Condition.values

structure Quiet (s : Select) : Prop where
  columns : ∀ column ∈ s.columns, Quoteless column.table
  source : s.source.Quiet
  conditions : ∀ c ∈ s.conditions, c.Quiet
  order : ∀ column order, s.order = some (column, order) → Quoteless column.table

theorem clean_order {order : Option (Column × SortOrder)}
    (quiet : ∀ column direction, order = some (column, direction) → Quoteless column.table) :
    Clean (orderTokens order) ∧ Opens (orderTokens order) := by
  cases order with
  | none => exact ⟨.nil, trivial⟩
  | some order =>
    obtain ⟨column, direction⟩ := order
    have here := quiet_column (quiet column direction rfl)
    refine ⟨?_, .inl rfl⟩
    have last : Clean [column.token, .space, .keyword direction.keyword] :=
      .other here.1 here.2 (.other rfl trivial (.other rfl trivial .nil))
    exact .other rfl trivial (.other rfl trivial (.other rfl trivial last))

theorem clean_where {conditions : List Condition} (quiet : ∀ c ∈ conditions, c.Quiet) :
    Clean (whereTokens conditions) ∧ Opens (whereTokens conditions) := by
  unfold whereTokens
  split
  next => exact ⟨.nil, trivial⟩
  next =>
    exact ⟨(clean_conjunction quiet).after (by simp [Token.literal?, Token.Quiet]), .inl rfl⟩

theorem mem_joinTokens {between : List Token} {parts : List (List Token)} {t : Token}
    (member : t ∈ joinTokens between parts) : t ∈ between ∨ ∃ part ∈ parts, t ∈ part := by
  induction parts with
  | nil => cases member
  | cons part rest ih =>
    rw [joinTokens_cons] at member
    rcases List.mem_append.mp member with first | later
    · exact .inr ⟨part, by simp, first⟩
    · split at later
      next => cases later
      next =>
        rcases List.mem_append.mp later with gap | later
        · exact .inl gap
        · rcases ih later with gap | ⟨other, present, inside⟩
          · exact .inl gap
          · exact .inr ⟨other, by simp [present], inside⟩

theorem quiet_columns {columns : List Column}
    (quiet : ∀ column ∈ columns, Quoteless column.table) :
    ∀ t ∈ joinTokens [.comma, .space] (columns.map ([·.token])), t.literal? = none ∧ t.Quiet := by
  intro t member
  rcases mem_joinTokens member with gap | ⟨part, present, inside⟩
  · simp only [List.mem_cons, List.not_mem_nil, or_false] at gap
    rcases gap with rfl | rfl <;> exact ⟨rfl, trivial⟩
  · obtain ⟨column, among, rfl⟩ := List.mem_map.mp present
    rw [List.mem_singleton.mp inside]
    exact quiet_column (quiet column among)

theorem Quiet.clean {s : Select} (quiet : s.Quiet) : Clean s.tokens := by
  have order := clean_order quiet.order
  have conditions := clean_where quiet.conditions
  have opens : Opens (whereTokens s.conditions ++ orderTokens s.order) := by
    cases tokens : whereTokens s.conditions with
    | nil => exact order.2
    | cons t rest =>
      rw [tokens] at conditions
      exact conditions.2
  have source := quiet.source.clean.append (conditions.1.append order.1 order.2) opens
  rw [tokens]
  simp only [List.append_assoc]
  refine Clean.after (by simp [Token.literal?, Token.Quiet]) ?_
  refine Clean.after (quiet_columns quiet.columns) ?_
  exact source.after (by simp [Token.literal?, Token.Quiet])

theorem literals_where (conditions : List Condition) :
    (whereTokens conditions).filterMap Token.literal? = conditions.flatMap Condition.values := by
  rw [← literals_conjunction]
  unfold whereTokens
  split
  next none =>
    rw [List.isEmpty_iff.mp none]
    rfl
  next => rfl

theorem literals_order (order : Option (Column × SortOrder)) :
    (orderTokens order).filterMap Token.literal? = [] := by
  cases order with
  | none => rfl
  | some order => rfl

theorem literals_tokens {s : Select} (quiet : s.Quiet) :
    s.tokens.filterMap Token.literal? = s.values := by
  have columns : (joinTokens [.comma, .space] (s.columns.map ([·.token]))).filterMap
      Token.literal? = [] :=
    List.filterMap_eq_nil_iff.mpr fun t member => (quiet_columns quiet.columns t member).1
  rw [tokens]
  simp only [List.filterMap_append, columns, JoinTree.literals_tokens, literals_where,
    literals_order, values, List.flatMap_append]
  exact List.append_nil _

theorem Quiet.literals {s : Select} (quiet : s.Quiet) (d : Dialect) :
    Sql.literals d (s.render d) = some s.values := by
  rw [render, quiet.clean.literals, literals_tokens quiet]

end Select

end GraphSql.Sql
