import DotLang.Proofs.Lexeme
import DotLang.Proofs.RestatedShape

/-!
# Reading DOT text back

The text of a regenerated tree can be read back (`ofText?_of_toText`), as long as
no text in the tree has a backslash. So different trees are never written as the
same text (`toText_injective`).

The reader takes the lexemes of the text one by one. It keeps the lexemes of the
statement that it is in the middle of, the statements that stand before it in the
same block, and the same for every block around it. An opening brace begins a
block, a semicolon ends a statement, and a closing brace makes a block one
statement of the block around it.
-/

namespace DotLang

/-- The attributes of a statement, each with a mark in front: a bracket before the first, commas
before the others. -/
def items? : Char → List Lexeme → Option (List Attr)
  | _, [.mark ']'] => some []
  | opener, .mark char :: .name id :: .mark '=' :: .name value :: rest =>
      if char = opener then do return ⟨id, .text value⟩ :: (← items? ',' rest) else none
  | _, _ => none

/-- The attributes at the end of a statement; no attributes, no brackets. -/
def attrs? : List Lexeme → Option (List Attr)
  | [] => some []
  | lexemes => items? '[' lexemes

/-- The statement that ends with a semicolon. -/
def statement? : List Lexeme → Option Tree
  | .keyword target :: rest => do return .attrStmt target (← attrs? rest)
  | .name tail :: .mark '-' :: .mark _ :: .name head :: rest => do
      return .edgeStmt [.nodeId { id := tail }, .nodeId { id := head }] (← attrs? rest)
  | .name id :: rest => do return .nodeStmt (.nodeId { id }) (← attrs? rest)
  | _ => none

/-- The declared id behind a keyword. -/
def declared? : List Lexeme → Option (Option String)
  | [] => some none
  | [.name id] => some (some id)
  | _ => none

/-- The block with the given statements and the given lexemes in front of it. -/
def block? (children : List Tree) : List Lexeme → Option Tree
  | .keyword "strict" :: .keyword kind :: rest => do
      return .graph kind (← declared? rest) true children
  | .keyword kind :: rest => do
      let id ← declared? rest
      return if kind = "subgraph" then .subgraph id children else .graph kind id false children
  | _ => none

/-- A reader in the middle of DOT text. -/
structure Reader where
  /-- The lexemes since the last statement or brace. -/
  clause : List Lexeme := []
  /-- The statements in the innermost open block. -/
  read : List Tree := []
  /-- The open blocks, innermost first: what stands in front of the brace, and the statements before
  that in the block around. -/
  outer : List (List Lexeme × List Tree) := []

namespace Reader

/-- Takes one lexeme. -/
def take (reader : Reader) : Lexeme → Option Reader
  | .mark '\x7b' => some { outer := (reader.clause, reader.read) :: reader.outer }
  | .mark ';' => do
      return { reader with clause := [], read := reader.read ++ [← statement? reader.clause] }
  | .mark '\x7d' =>
      match reader.clause, reader.outer with
      | [], (head, before) :: outer => do
          return { read := before ++ [← block? reader.read head], outer }
      | _, _ => none
  | lexeme => some { reader with clause := reader.clause ++ [lexeme] }

/-- Takes all lexemes. -/
def run (reader : Reader) (lexemes : List Lexeme) : Option Reader :=
  lexemes.foldlM take reader

end Reader

/-- The tree that DOT text describes. -/
def Tree.ofText? (text : String) : Option Tree :=
  match Reader.run {} (Lexeme.scan .between text.toList) with
  | some { clause := [], read := [tree], outer := [] } => some tree
  | _ => none

/-! ### Clauses -/

/-- Whether a lexeme can stand inside a statement. -/
def Lexeme.isInner : Lexeme → Bool
  | .mark char => char ∉ ['\x7b', ';', '\x7d']
  | _ => true

namespace Reader

theorem run_cons {reader next : Reader} {lexeme : Lexeme} (taken : reader.take lexeme = some next)
    (rest : List Lexeme) : reader.run (lexeme :: rest) = next.run rest := by
  rw [run, List.foldlM_cons, taken]
  rfl

theorem take_of_isInner {lexeme : Lexeme} (inner : lexeme.isInner = true) (reader : Reader) :
    reader.take lexeme = some { reader with clause := reader.clause ++ [lexeme] } := by
  rw [take]
  all_goals
    rintro rfl
    cases inner

/-- What can stand inside a statement is kept for it. -/
theorem run_clause {clause : List Lexeme} (inner : ∀ lexeme ∈ clause, lexeme.isInner = true)
    (reader : Reader) (rest : List Lexeme) :
    reader.run (clause ++ rest) = run { reader with clause := reader.clause ++ clause } rest := by
  induction clause generalizing reader with
  | nil => simp
  | cons lexeme clause ih =>
      rw [List.forall_mem_cons] at inner
      rw [List.cons_append, run_cons (take_of_isInner inner.1 reader), ih inner.2]
      simp

end Reader

/-! ### Lines -/

/-- The characters of some lines, each behind a line break. -/
def charsOf (lines : List String) : List Char :=
  lines.flatMap fun line => '\n' :: line.toList

/-- Whether characters are read as the given statements, wherever these can stand. -/
def ReadsAs (chars : List Char) (trees : List Tree) : Prop :=
  ∀ before outer rest, Reader.run { read := before, outer } (Lexeme.scan .between (chars ++ rest)) =
    Reader.run { read := before ++ trees, outer } (Lexeme.scan .between rest)

theorem ReadsAs.nil : ReadsAs [] [] := by
  intro before outer rest
  simp

theorem ReadsAs.append {first others : List Char} {trees more : List Tree}
    (first_reads : ReadsAs first trees) (others_read : ReadsAs others more) :
    ReadsAs (first ++ others) (trees ++ more) := by
  intro before outer rest
  rw [List.append_assoc, first_reads, others_read, List.append_assoc]

theorem scan_blanks {blanks : List Char} (blank : ∀ char ∈ blanks, Lexeme.isLayout char = true)
    (rest : List Char) :
    Lexeme.scan .between (blanks ++ rest) = Lexeme.scan .between rest := by
  induction blanks with
  | nil => rfl
  | cons char blanks ih =>
      rw [List.forall_mem_cons] at blank
      rw [List.cons_append, Lexeme.scan_layout blank.1, ih blank.2]

/-- A line with a statement. -/
theorem readsAs_statement {blanks chars : List Char} {clause : List Lexeme} {tree : Tree}
    (blank : ∀ char ∈ blanks, Lexeme.isLayout char = true)
    (inner : ∀ lexeme ∈ clause, lexeme.isInner = true) (statement : statement? clause = some tree)
    (scanned : ∀ rest, Lexeme.scan .between (chars ++ ';' :: rest) =
      clause ++ .mark ';' :: Lexeme.scan .between rest) :
    ReadsAs ('\n' :: (blanks ++ (chars ++ [';']))) [tree] := by
  intro before outer rest
  have taken : Reader.take { clause, read := before, outer } (.mark ';') =
      some { read := before ++ [tree], outer } := by
    simp only [Reader.take, statement]
    rfl
  rw [List.cons_append, Lexeme.scan_layout rfl, List.append_assoc, scan_blanks blank,
    List.append_assoc, List.singleton_append, scanned, Reader.run_clause inner, List.nil_append,
    Reader.run_cons taken]

/-- The lines of a block. -/
theorem readsAs_block {blanks head body : List Char} {clause : List Lexeme} {tree : Tree}
    {children : List Tree} (blank : ∀ char ∈ blanks, Lexeme.isLayout char = true)
    (inner : ∀ lexeme ∈ clause, lexeme.isInner = true) (block : block? children clause = some tree)
    (scanned : ∀ rest, Lexeme.scan .between (head ++ ' ' :: rest) =
      clause ++ Lexeme.scan .between rest)
    (inside : ReadsAs body children) :
    ReadsAs ('\n' :: (blanks ++ (head ++ [' ', '\x7b']) ++ body ++ '\n' :: (blanks ++ ['\x7d'])))
      [tree] := by
  intro before outer rest
  have closed : Reader.take { read := children, outer := (clause, before) :: outer }
      (.mark '\x7d') = some { read := before ++ [tree], outer } := by
    simp only [Reader.take, block]
    rfl
  have opened : Reader.take { clause, read := before, outer } (.mark '\x7b') =
      some { outer := (clause, before) :: outer } := rfl
  simp only [List.cons_append, List.append_assoc, List.nil_append]
  rw [Lexeme.scan_layout rfl, scan_blanks blank, scanned, Reader.run_clause inner, List.nil_append,
    Lexeme.scan_mark rfl, Reader.run_cons opened, inside, List.nil_append, Lexeme.scan_layout rfl,
    scan_blanks blank, Lexeme.scan_mark rfl, Reader.run_cons closed]

/-! ### Statements -/

/-- The texts of a tree have no backslashes, and all attributes are texts. -/
def Wording.clean : Wording where
  name text := '\\' ∉ text.toList
  attrs attrs := ∀ entry ∈ attrs, '\\' ∉ entry.id.toList ∧
    ∃ text, entry.value = .text text ∧ '\\' ∉ text.toList

/-- The lexemes of an attribute list behind its first mark. -/
def itemLexemes : Char → List Attr → List Lexeme
  | _, [] => [.mark ']']
  | opener, entry :: rest =>
      .mark opener :: .name entry.id :: .mark '=' :: .name entry.value.display ::
        itemLexemes ',' rest

/-- The lexemes of the attributes of a statement. -/
def attrLexemes (attrs : List Attr) : List Lexeme :=
  if attrs.isEmpty then [] else itemLexemes '[' attrs

theorem items?_itemLexemes {attrs : List Attr} (clean : Wording.clean.attrs attrs)
    (opener : Char) : items? opener (itemLexemes opener attrs) = some attrs := by
  induction attrs generalizing opener with
  | nil => rfl
  | cons entry rest ih =>
      rcases List.forall_mem_cons.mp clean with ⟨⟨_, text, value_eq, _⟩, rest_clean⟩
      have entry_eq : entry = ⟨entry.id, .text text⟩ := by
        cases entry
        simp_all
      rw [entry_eq]
      simp [itemLexemes, items?, ih rest_clean, Value.display]

theorem attrs?_attrLexemes {attrs : List Attr} (clean : Wording.clean.attrs attrs) :
    attrs? (attrLexemes attrs) = some attrs := by
  cases attrs with
  | nil => rfl
  | cons entry rest => exact items?_itemLexemes clean '['

theorem isInner_itemLexemes (attrs : List Attr) {opener : Char}
    (inner : (Lexeme.mark opener).isInner = true) :
    ∀ lexeme ∈ itemLexemes opener attrs, lexeme.isInner = true := by
  induction attrs generalizing opener with
  | nil => simp [itemLexemes, Lexeme.isInner]
  | cons entry rest ih =>
      have others : ∀ lexeme ∈ itemLexemes ',' rest, lexeme.isInner = true := ih rfl
      simp only [itemLexemes, List.forall_mem_cons]
      exact ⟨inner, rfl, rfl, rfl, others⟩

theorem isInner_attrLexemes (attrs : List Attr) :
    ∀ lexeme ∈ attrLexemes attrs, lexeme.isInner = true := by
  rw [attrLexemes]
  split
  · exact List.forall_mem_nil _
  · exact isInner_itemLexemes attrs rfl

/-- The text of an attribute in the brackets of a statement. -/
def entryText (entry : Attr) : String :=
  Token.ofText entry.id ++ "=" ++ Token.ofValue entry.value

theorem scan_entry {entry : Attr} (id_clean : '\\' ∉ entry.id.toList)
    (value_clean : ∃ text, entry.value = .text text ∧ '\\' ∉ text.toList) {char : Char}
    (ends : char.isAlphanum = false) (rest : List Char) :
    Lexeme.scan .between ((entryText entry).toList ++ char :: rest) =
      .name entry.id :: .mark '=' :: .name entry.value.display ::
        Lexeme.scan .between (char :: rest) := by
  rcases value_clean with ⟨text, value_eq, text_clean⟩
  have chars_eq : (entryText entry).toList =
      (Token.ofText entry.id).toList ++ '=' :: (Token.ofText text).toList := by
    simp [entryText, value_eq, Token.ofValue, Value.display]
  rw [chars_eq, List.append_assoc, List.cons_append, Lexeme.scan_token id_clean rfl,
    Lexeme.scan_mark rfl, Lexeme.scan_token text_clean ends, value_eq]
  rfl

theorem scan_items {entry : Attr} {attrs : List Attr}
    (clean : Wording.clean.attrs (entry :: attrs)) (rest : List Char) :
    Lexeme.scan .between
        ((", ".intercalate ((entry :: attrs).map entryText)).toList ++ ']' :: rest) =
      .name entry.id :: .mark '=' :: .name entry.value.display :: itemLexemes ',' attrs ++
        Lexeme.scan .between rest := by
  induction attrs generalizing entry with
  | nil =>
      rcases List.forall_mem_singleton.mp clean with ⟨id_clean, value_clean⟩
      rw [List.map_singleton, String.intercalate_singleton,
        scan_entry id_clean value_clean rfl, Lexeme.scan_mark rfl]
      rfl
  | cons next attrs ih =>
      rcases List.forall_mem_cons.mp clean with ⟨⟨id_clean, value_clean⟩, others_clean⟩
      have chars_eq : (", ".intercalate ((entry :: next :: attrs).map entryText)).toList =
          (entryText entry).toList ++
            ',' :: ' ' :: (", ".intercalate ((next :: attrs).map entryText)).toList := by
        simp [String.intercalate_cons_cons]
      rw [chars_eq, List.append_assoc, List.cons_append, List.cons_append,
        scan_entry id_clean value_clean rfl, Lexeme.scan_mark rfl, Lexeme.scan_layout rfl,
        ih others_clean]
      rfl

theorem attrsText_eq (attrs : List Attr) : Tree.attrsText attrs =
    if attrs.isEmpty then "" else " [" ++ ", ".intercalate (attrs.map entryText) ++ "]" := rfl

theorem scan_attrsText {attrs : List Attr} (clean : Wording.clean.attrs attrs) (rest : List Char) :
    Lexeme.scan .between ((Tree.attrsText attrs).toList ++ ';' :: rest) =
      attrLexemes attrs ++ .mark ';' :: Lexeme.scan .between rest := by
  cases attrs with
  | nil => exact Lexeme.scan_mark rfl rest
  | cons entry others =>
      have chars_eq : (Tree.attrsText (entry :: others)).toList = ' ' :: '[' ::
          ((", ".intercalate ((entry :: others).map entryText)).toList ++ [']']) := by
        simp [attrsText_eq]
      rw [chars_eq, List.cons_append, Lexeme.scan_layout rfl, List.cons_append,
        Lexeme.scan_mark rfl, List.append_assoc, List.singleton_append, scan_items clean,
        Lexeme.scan_mark rfl]
      rfl

/-- The attributes of a statement do not go on with the token in front of them. -/
theorem attrsText_starts (attrs : List Attr) (rest : List Char) : ∃ char tail,
    (Tree.attrsText attrs).toList ++ ';' :: rest = char :: tail ∧ char.isAlphanum = false := by
  cases attrs with
  | nil => exact ⟨';', rest, rfl, rfl⟩
  | cons entry others => exact ⟨' ', _, by simp [attrsText_eq]; rfl, rfl⟩

/-- The name in front of the attributes of a statement. -/
theorem scan_subject {id : String} {attrs : List Attr} (id_clean : Wording.clean.name id)
    (clean : Wording.clean.attrs attrs) (rest : List Char) :
    Lexeme.scan .between
        ((Token.ofText id).toList ++ ((Tree.attrsText attrs).toList ++ ';' :: rest)) =
      .name id :: attrLexemes attrs ++ .mark ';' :: Lexeme.scan .between rest := by
  rcases attrsText_starts attrs rest with ⟨char, tail, chars_eq, ends⟩
  rw [chars_eq, Lexeme.scan_token id_clean ends, ← chars_eq, scan_attrsText clean]
  rfl

section

variable {indent : String} {level : Int}

theorem isLayout_indentation (blank : ∀ char ∈ indent.toList, char = ' ' ∨ char = '\t')
    (level : Int) : ∀ char ∈ (Tree.indentation indent level).toList,
      Lexeme.isLayout char = true := by
  intro char char_mem
  rw [Tree.indentation, String.toList_join, List.mem_flatMap] at char_mem
  rcases char_mem with ⟨step, step_mem, char_mem⟩
  rw [List.eq_of_mem_replicate step_mem] at char_mem
  rcases blank char char_mem with rfl | rfl <;> rfl

/-- A line of a statement that consists of a clause and attributes. -/
theorem readsAs_line (blank : ∀ char ∈ indent.toList, char = ' ' ∨ char = '\t') {subject : String}
    {clause : List Lexeme} {attrs : List Attr} {tree : Tree}
    (inner : ∀ lexeme ∈ clause, lexeme.isInner = true)
    (statement : statement? (clause ++ attrLexemes attrs) = some tree)
    (scanned : ∀ rest, Lexeme.scan .between
        (subject.toList ++ ((Tree.attrsText attrs).toList ++ ';' :: rest)) =
      clause ++ (attrLexemes attrs ++ .mark ';' :: Lexeme.scan .between rest)) :
    ReadsAs (charsOf [Tree.indentation indent level ++ subject ++ Tree.attrsText attrs ++ ";"])
      [tree] := by
  have chars_eq : charsOf [Tree.indentation indent level ++ subject ++ Tree.attrsText attrs ++ ";"]
      = '\n' :: ((Tree.indentation indent level).toList ++
        ((subject.toList ++ (Tree.attrsText attrs).toList) ++ [';'])) := by
    simp [charsOf]
  rw [chars_eq]
  apply readsAs_statement (isLayout_indentation blank level) _ statement
  · intro rest
    rw [List.append_assoc, scanned, List.append_assoc]
  · exact List.forall_mem_append.mpr ⟨inner, isInner_attrLexemes attrs⟩

theorem readsAs_nodeStmt (blank : ∀ char ∈ indent.toList, char = ' ' ∨ char = '\t') {id : String}
    {attrs : List Attr} (id_clean : Wording.clean.name id) (clean : Wording.clean.attrs attrs)
    (level : Int) (directed : Bool) {lines : List String}
    (made : Tree.lines indent level directed (.nodeStmt (.nodeId { id }) attrs) = .ok lines) :
    ReadsAs (charsOf lines) [.nodeStmt (.nodeId { id }) attrs] := by
  cases made
  have statement : statement? ([.name id] ++ attrLexemes attrs) =
      some (.nodeStmt (.nodeId { id }) attrs) := by
    have read := attrs?_attrLexemes clean
    cases attrs with
    | nil => rfl
    | cons entry rest =>
        have lexemes_eq : attrLexemes (entry :: rest) =
            .mark '[' :: .name entry.id :: .mark '=' :: .name entry.value.display ::
              itemLexemes ',' rest := rfl
        rw [lexemes_eq] at read ⊢
        simp [statement?, read]
  apply readsAs_line blank _ statement
  · intro rest
    simp only [Tree.nodeIdText, Tree.nodePartText, String.append_empty]
    exact scan_subject id_clean clean rest
  · simp [Lexeme.isInner]

theorem readsAs_edgeStmt (blank : ∀ char ∈ indent.toList, char = ' ' ∨ char = '\t')
    {tail head : String} {attrs : List Attr} (tail_clean : Wording.clean.name tail)
    (head_clean : Wording.clean.name head) (clean : Wording.clean.attrs attrs)
    (level : Int) (directed : Bool) {lines : List String}
    (made : Tree.lines indent level directed
      (.edgeStmt [.nodeId { id := tail }, .nodeId { id := head }] attrs) = .ok lines) :
    ReadsAs (charsOf lines) [.edgeStmt [.nodeId { id := tail }, .nodeId { id := head }] attrs] := by
  cases made
  have statement : statement? ([.name tail, .mark '-', .mark (if directed then '>' else '-'),
      .name head] ++ attrLexemes attrs) =
      some (.edgeStmt [.nodeId { id := tail }, .nodeId { id := head }] attrs) := by
    simp [statement?, attrs?_attrLexemes clean]
  apply readsAs_line blank _ statement
  · intro rest
    have chars_eq : ((Tree.edgeOperator directed).intercalate
        [Tree.nodeIdText { id := tail }, Tree.nodeIdText { id := head }]).toList =
        (Token.ofText tail).toList ++ ' ' :: '-' :: (if directed then '>' else '-') :: ' ' ::
          (Token.ofText head).toList := by
      cases directed <;>
        simp [Tree.edgeOperator, Tree.nodeIdText, Tree.nodePartText, String.intercalate_cons_cons]
    have tip : Lexeme.isMark (if directed then '>' else '-') = true := by
      cases directed <;> rfl
    simp only [chars_eq, List.append_assoc, List.cons_append]
    rw [Lexeme.scan_token tail_clean rfl, Lexeme.scan_layout rfl, Lexeme.scan_mark rfl,
      Lexeme.scan_mark tip, Lexeme.scan_layout rfl, scan_subject head_clean clean]
    rfl
  · cases directed <;> simp [Lexeme.isInner]

theorem readsAs_attrStmt (blank : ∀ char ∈ indent.toList, char = ' ' ∨ char = '\t')
    {attrs : List Attr} (clean : Wording.clean.attrs attrs)
    (level : Int) (directed : Bool) {lines : List String}
    (made : Tree.lines indent level directed (.attrStmt "graph" attrs) = .ok lines) :
    ReadsAs (charsOf lines) [.attrStmt "graph" attrs] := by
  cases made
  have statement : statement? ([.keyword "graph"] ++ attrLexemes attrs) =
      some (.attrStmt "graph" attrs) := by
    simp [statement?, attrs?_attrLexemes clean]
  apply readsAs_line blank _ statement
  · intro rest
    rcases attrsText_starts attrs rest with ⟨char, tail, chars_eq, ends⟩
    have reserved : "graph" ∈ Token.reservedWords := by decide
    rw [chars_eq, Lexeme.scan_keyword reserved ends, ← chars_eq, scan_attrsText clean]
    rfl
  · simp [Lexeme.isInner]

/-- The lexemes in front of the brace of a block. -/
def headLexemes (keyword : String) (id : Option String) : List Lexeme :=
  .keyword keyword :: id.toList.map .name

theorem isInner_headLexemes (keyword : String) (id : Option String) :
    ∀ lexeme ∈ headLexemes keyword id, lexeme.isInner = true := by
  cases id <;> simp [headLexemes, Lexeme.isInner]

theorem declared?_eq (id : Option String) : declared? (id.toList.map .name) = some id := by
  cases id <;> rfl

theorem scan_head {keyword : String} (reserved : keyword ∈ Token.reservedWords)
    {id : Option String} (clean : ∀ name ∈ id, Wording.clean.name name) (rest : List Char) :
    Lexeme.scan .between ((Tree.headText keyword id).toList ++ ' ' :: rest) =
      headLexemes keyword id ++ Lexeme.scan .between rest := by
  cases id with
  | none =>
      rw [Tree.headText, Lexeme.scan_keyword reserved rfl, Lexeme.scan_layout rfl]
      rfl
  | some name =>
      have chars_eq : (Tree.headText keyword (some name)).toList =
          keyword.toList ++ ' ' :: (Token.ofText name).toList := by
        simp [Tree.headText]
      rw [chars_eq, List.append_assoc, List.cons_append, Lexeme.scan_keyword reserved rfl,
        Lexeme.scan_layout rfl, Lexeme.scan_token (clean name rfl) rfl, Lexeme.scan_layout rfl]
      rfl

/-- The lines of a block with a head. -/
theorem readsAs_blockLines (blank : ∀ char ∈ indent.toList, char = ' ' ∨ char = '\t')
    {head : String} {clause : List Lexeme} {tree : Tree} {children : List Tree}
    (inner : ∀ lexeme ∈ clause, lexeme.isInner = true) (block : block? children clause = some tree)
    (scanned : ∀ rest, Lexeme.scan .between (head.toList ++ ' ' :: rest) =
      clause ++ Lexeme.scan .between rest)
    {body : List String} (inside : ReadsAs (charsOf body) children) :
    ReadsAs (charsOf (Tree.block indent level head body)) [tree] := by
  have chars_eq : charsOf (Tree.block indent level head body) =
      '\n' :: ((Tree.indentation indent level).toList ++ (head.toList ++ [' ', '\x7b']) ++
        charsOf body ++ '\n' :: ((Tree.indentation indent level).toList ++ ['\x7d'])) := by
    simp [charsOf, Tree.block]
  rw [chars_eq]
  exact readsAs_block (isLayout_indentation blank level) inner block scanned inside

theorem readsAs_items {children : List Tree} (directed : Bool)
    (each : ∀ child ∈ children, ∀ lines, child.lines indent level directed = .ok lines →
      ReadsAs (charsOf lines) [child])
    {lines : List String} (made : Tree.linesOfItems indent level directed children = .ok lines) :
    ReadsAs (charsOf lines) children := by
  induction children generalizing lines with
  | nil =>
      cases made
      exact .nil
  | cons child rest ih =>
      rcases exists_of_bind_eq_ok made with ⟨first, first_eq, made⟩
      rcases exists_of_bind_eq_ok made with ⟨others, others_eq, made⟩
      cases made
      rw [List.forall_mem_cons] at each
      have chars_eq : charsOf (first ++ others) = charsOf first ++ charsOf others := by
        simp [charsOf]
      rw [chars_eq]
      exact (each.1 first first_eq).append (ih each.2 others_eq)

/-- The lines of a restated statement are read as the statement. -/
theorem readsAs_lines (blank : ∀ char ∈ indent.toList, char = ' ' ∨ char = '\t') {tree : Tree}
    (restated : tree.Restated .clean) (level : Int) (directed : Bool) {lines : List String}
    (made : tree.lines indent level directed = .ok lines) : ReadsAs (charsOf lines) [tree] := by
  induction restated generalizing level lines with
  | @subgraph id children named inside ih =>
      rcases exists_of_bind_eq_ok made with ⟨body, body_eq, made⟩
      cases made
      have body_reads : ReadsAs (charsOf body) children :=
        readsAs_items directed (fun child child_mem lines => ih child child_mem (level + 1)) body_eq
      have block_eq : block? children (headLexemes "subgraph" id) =
          some (.subgraph id children) := by
        simp [block?, headLexemes, declared?_eq]
      exact readsAs_blockLines blank (isInner_headLexemes "subgraph" id) block_eq
        (scan_head (by decide) named) body_reads
  | nodeStmt named listed => exact readsAs_nodeStmt blank named listed level directed made
  | edgeStmt tail_named head_named listed =>
      exact readsAs_edgeStmt blank tail_named head_named listed level directed made
  | attrStmt filled listed => exact readsAs_attrStmt blank listed level directed made

end

/-! ### Graphs -/

/-- A graph as it is regenerated, with texts that have no backslashes. -/
inductive Tree.CleanGraph : Tree → Prop where
  | graph {kind : String} {id : Option String} {isStrict : Bool} {children : List Tree}
      (kind_mem : kind ∈ graphKinds) (named : ∀ name ∈ id, Wording.clean.name name)
      (inside : ∀ child ∈ children, child.Restated .clean) :
      CleanGraph (.graph kind id isStrict children)

/-- The lexemes in front of the brace of a graph. -/
def graphLexemes (kind : String) (id : Option String) (isStrict : Bool) : List Lexeme :=
  if isStrict then .keyword "strict" :: headLexemes kind id else headLexemes kind id

theorem block?_graphLexemes {kind : String} (kind_mem : kind ∈ Tree.graphKinds)
    (id : Option String) (isStrict : Bool) (children : List Tree) :
    block? children (graphLexemes kind id isStrict) = some (.graph kind id isStrict children) := by
  have kinds : kind = "graph" ∨ kind = "digraph" := by simpa [Tree.graphKinds] using kind_mem
  rcases kinds with rfl | rfl <;> cases isStrict <;> cases id <;> rfl

theorem scan_graphHead {kind : String} (kind_mem : kind ∈ Tree.graphKinds) {id : Option String}
    (clean : ∀ name ∈ id, Wording.clean.name name) (isStrict : Bool) (rest : List Char) :
    Lexeme.scan .between ((Tree.graphHead kind id isStrict).toList ++ ' ' :: rest) =
      graphLexemes kind id isStrict ++ Lexeme.scan .between rest := by
  have reserved : kind ∈ Token.reservedWords := by
    revert kind
    decide
  cases isStrict with
  | false => exact scan_head reserved clean rest
  | true =>
      have chars_eq : (Tree.graphHead kind id true).toList =
          "strict".toList ++ ' ' :: (Tree.headText kind id).toList := by
        simp [Tree.graphHead]
      rw [chars_eq, List.append_assoc, List.cons_append, Lexeme.scan_keyword (by decide) rfl,
        Lexeme.scan_layout rfl, scan_head reserved clean]
      rfl

theorem charsOf_eq {lines : List String} (filled : lines ≠ []) :
    charsOf lines = '\n' :: ("\n".intercalate lines).toList := by
  induction lines with
  | nil => exact absurd rfl filled
  | cons first rest ih =>
      cases rest with
      | nil => simp [charsOf]
      | cons second rest =>
          have chars_eq : charsOf (first :: second :: rest) =
              '\n' :: first.toList ++ charsOf (second :: rest) := rfl
          rw [chars_eq, ih (List.cons_ne_nil second rest), String.intercalate_cons_cons]
          simp

/-- The text of a regenerated graph is read as the graph, whatever its indentation. -/
theorem ofText?_of_toText {indent : String}
    (blank : ∀ char ∈ indent.toList, char = ' ' ∨ char = '\t') {tree : Tree}
    (clean : tree.CleanGraph) {level : Int} {directed : Bool} {text : String}
    (made : tree.toText indent level directed = .ok text) : Tree.ofText? text = some tree := by
  cases clean with
  | @graph kind id isStrict children kind_mem named inside =>
      rcases exists_of_bind_eq_ok made with ⟨lines, lines_eq, made⟩
      rcases exists_of_bind_eq_ok lines_eq with ⟨body, body_eq, lines_eq⟩
      cases made
      cases lines_eq
      have body_reads : ReadsAs (charsOf body) children :=
        readsAs_items _ (fun child child_mem _ => readsAs_lines blank (inside child child_mem) _ _)
          body_eq
      have inner : ∀ lexeme ∈ graphLexemes kind id isStrict, lexeme.isInner = true := by
        cases isStrict with
        | false => exact isInner_headLexemes kind id
        | true => exact List.forall_mem_cons.mpr ⟨rfl, isInner_headLexemes kind id⟩
      let lines := Tree.block indent level (Tree.graphHead kind id isStrict) body
      have reads : ReadsAs (charsOf lines) [.graph kind id isStrict children] :=
        readsAs_blockLines blank inner (block?_graphLexemes kind_mem id isStrict children)
          (scan_graphHead kind_mem named isStrict) body_reads
      have filled : lines ≠ [] := List.cons_ne_nil _ _
      have whole := reads [] [] []
      rw [charsOf_eq filled, List.append_nil, Lexeme.scan_layout rfl] at whole
      rw [Tree.ofText?, whole]
      rfl

theorem exists_text {tree : Tree} (clean : tree.CleanGraph) (indent : String) (level : Int)
    (directed : Bool) : ∃ text, tree.toText indent level directed = .ok text := by
  cases clean with
  | graph kind_mem named inside => exact Tree.toText_restated inside indent level directed

namespace Model

variable {model : Model}

theorem cleanGraph_restatement (kind_mem : model.kind ∈ Tree.graphKinds)
    (worded : model.Worded .clean Geometry.plain.encode) : model.restatement.CleanGraph := by
  rcases toTree_restated worded model.toTree_plain with ⟨children, tree_eq, inside⟩
  rw [tree_eq]
  exact .graph kind_mem worded.id inside

theorem toText_plain_eq {indent text : String}
    (made : model.restatement.toText indent 0 true = .ok text) :
    model.toText .plain indent = .ok text := by
  simp only [toText, toTree_plain, made]

end Model

/-- Different graphs of the shape that is regenerated are not written as the same text, and neither
are models that are regenerated differently. -/
theorem toText_injective {indent : String}
    (blank : ∀ char ∈ indent.toList, char = ' ' ∨ char = '\t') :
    (∀ first second : Tree, first.CleanGraph → second.CleanGraph →
      ∃ firstText secondText, first.toText indent 0 true = .ok firstText ∧
        second.toText indent 0 true = .ok secondText ∧ (firstText = secondText → first = second)) ∧
    ∀ first second : Model, first.kind ∈ Tree.graphKinds → second.kind ∈ Tree.graphKinds →
      first.Worded .clean Geometry.plain.encode → second.Worded .clean Geometry.plain.encode →
      first.toText .plain indent = second.toText .plain indent →
      first.toTree Geometry.plain.encode = second.toTree Geometry.plain.encode := by
  have injective (first second : Tree) (first_clean : first.CleanGraph)
      (second_clean : second.CleanGraph) : ∃ firstText secondText,
        first.toText indent 0 true = .ok firstText ∧ second.toText indent 0 true = .ok secondText ∧
          (firstText = secondText → first = second) := by
    rcases exists_text first_clean indent 0 true with ⟨firstText, first_made⟩
    rcases exists_text second_clean indent 0 true with ⟨secondText, second_made⟩
    refine ⟨firstText, secondText, first_made, second_made, ?_⟩
    rintro rfl
    have first_read := ofText?_of_toText blank first_clean first_made
    have second_read := ofText?_of_toText blank second_clean second_made
    exact Option.some.inj (first_read.symm.trans second_read)
  refine ⟨injective, ?_⟩
  intro first second first_kind second_kind first_worded second_worded texts_eq
  rcases injective first.restatement second.restatement
    (Model.cleanGraph_restatement first_kind first_worded)
    (Model.cleanGraph_restatement second_kind second_worded) with
    ⟨firstText, secondText, first_made, second_made, trees_eq⟩
  rw [Model.toText_plain_eq first_made, Model.toText_plain_eq second_made] at texts_eq
  rw [first.toTree_plain, second.toTree_plain, trees_eq (Except.ok.inj texts_eq)]

/-- A node whose name looks like the text of another node with an attribute, and a graph that is
named like the keyword of a subgraph. -/
theorem toText_injective_of_lookalikes :
    let plain := Tree.graph "digraph" none false
      [.subgraph none [.nodeStmt (.nodeId { id := "a" }) [⟨"b", .text "c"⟩]]]
    let quoted := Tree.graph "digraph" none false
      [.subgraph (some "subgraph") [.nodeStmt (.nodeId { id := "a [b=\"c\"];\n" }) []]]
    plain.CleanGraph ∧ quoted.CleanGraph ∧
      ∃ plainText quotedText, plain.toText "  " 0 true = .ok plainText ∧
        quoted.toText "  " 0 true = .ok quotedText ∧ plainText ≠ quotedText := by
  intro plain quoted
  have plain_clean : plain.CleanGraph := by
    have listed : Wording.clean.attrs [⟨"b", .text "c"⟩] :=
      List.forall_mem_singleton.mpr ⟨by decide, "c", rfl, by decide⟩
    refine .graph (by decide) (by simp) (List.forall_mem_singleton.mpr ?_)
    refine .subgraph (by simp) (List.forall_mem_singleton.mpr (.nodeStmt ?_ listed))
    exact (by decide : '\\' ∉ "a".toList)
  have quoted_clean : quoted.CleanGraph := by
    refine .graph (by decide) (by simp) (List.forall_mem_singleton.mpr ?_)
    refine .subgraph ?_ (List.forall_mem_singleton.mpr (.nodeStmt ?_ (List.forall_mem_nil _)))
    · rintro name ⟨⟩
      exact (by decide : '\\' ∉ "subgraph".toList)
    · exact (by decide : '\\' ∉ "a [b=\"c\"];\n".toList)
  have blank : ∀ char ∈ "  ".toList, char = ' ' ∨ char = '\t' := by simp
  rcases (toText_injective blank).1 plain quoted plain_clean quoted_clean with
    ⟨plainText, quotedText, plain_made, quoted_made, injective⟩
  refine ⟨plain_clean, quoted_clean, plainText, quotedText, plain_made, quoted_made, ?_⟩
  intro texts_eq
  exact absurd (injective texts_eq) (by simp [plain, quoted])

end DotLang
