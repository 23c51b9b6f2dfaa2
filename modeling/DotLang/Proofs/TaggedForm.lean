import DotLang.Proofs.Results
import DotLang.Proofs.Walk.Strictness
import DotLang.Tree.TaggedForm

/-!
# Strict and lenient reading of tagged forms

Lenient reading never fails (`ofValue_lenient`). Strict reading either reads the
same, or it fails and lenient reading has put an unknown statement in the place of
the malformed part (`ofValue_modes`). A walk does not understand such a statement,
so nothing malformed gets lost on the way from the tagged form to the walk
(`ofValue_readings`). Either way nodes are named in all that is read.
-/

namespace DotLang

namespace Tree

mutual

/-- Whether a statement in a tree, at any depth, is unknown. The subject of a node statement is no
statement. -/
def hasUnknown : Tree → Bool
  | .graph _ _ _ children => anyUnknown children
  | .subgraph _ children => anyUnknown children
  | .edgeStmt endpoints _ => anyUnknown endpoints
  | .unknown _ _ _ => true
  | .list items => anyUnknown items
  | _ => false
termination_by structural tree => tree

def anyUnknown : List Tree → Bool
  | [] => false
  | tree :: rest => tree.hasUnknown || anyUnknown rest
termination_by structural trees => trees

end

mutual

theorem isUnderstood_of_hasUnknown : ∀ tree : Tree, tree.hasUnknown = true →
    tree.isUnderstood = false
  | .graph _ _ _ children, found => allUnderstood_of_anyUnknown children found
  | .subgraph _ children, found => allUnderstood_of_anyUnknown children found
  | .edgeStmt endpoints _, found => allUnderstoodEndpoints_of_anyUnknown endpoints found
  | .nodeStmt _ _, found => nomatch found
  | .attrStmt _ _, found => nomatch found
  | .nodeId _, _ => rfl
  | .attr _, _ => rfl
  | .unknown _ _ _, _ => rfl
  | .raw _, _ => rfl
  | .list _, _ => rfl
termination_by structural tree => tree

theorem allUnderstood_of_anyUnknown : ∀ trees : List Tree, anyUnknown trees = true →
    allUnderstood trees = false
  | [], found => nomatch found
  | tree :: rest, found => by
      rw [anyUnknown, Bool.or_eq_true] at found
      rw [allUnderstood, Bool.and_eq_false_iff]
      exact found.imp (isUnderstood_of_hasUnknown tree) (allUnderstood_of_anyUnknown rest)
termination_by structural trees => trees

theorem isUnderstoodEndpoint_of_hasUnknown : ∀ tree : Tree, tree.hasUnknown = true →
    tree.isUnderstoodEndpoint = false
  | .subgraph _ children, found => allUnderstood_of_anyUnknown children found
  | .nodeId _, found => nomatch found
  | .graph _ _ _ _, _ => rfl
  | .nodeStmt _ _, _ => rfl
  | .edgeStmt _ _, _ => rfl
  | .attrStmt _ _, _ => rfl
  | .attr _, _ => rfl
  | .unknown _ _ _, _ => rfl
  | .raw _, _ => rfl
  | .list _, _ => rfl
termination_by structural tree => tree

theorem allUnderstoodEndpoints_of_anyUnknown : ∀ trees : List Tree, anyUnknown trees = true →
    allUnderstoodEndpoints trees = false
  | [], found => nomatch found
  | tree :: rest, found => by
      rw [anyUnknown, Bool.or_eq_true] at found
      rw [allUnderstoodEndpoints, Bool.and_eq_false_iff]
      exact found.imp (isUnderstoodEndpoint_of_hasUnknown tree)
        (allUnderstoodEndpoints_of_anyUnknown rest)
termination_by structural trees => trees

end

variable {α β γ : Type}

theorem exists_of_map_eq_ok {reading : Except Malformed α} {put : α → β} {read : β}
    (put_eq : (do return put (← reading)) = Except.ok read) : ∃ part, put part = read := by
  cases reading with
  | error malformed => cases put_eq
  | ok part => exact ⟨part, Except.ok.inj put_eq⟩

/-- What a strict and a lenient reading of the same come to. -/
inductive Modes (names hasUnknown : α → Bool) : (strict lenient : Except Malformed α) → Prop where
  /-- They read the same, and nothing in it is unknown. -/
  | agree {read : α} (named : names read = true) (known : hasUnknown read = false) :
      Modes names hasUnknown (.ok read) (.ok read)
  /-- The strict one fails, and what the lenient one reads, if anything, has something unknown. -/
  | refuse {malformed : Malformed} {lenient : Except Malformed α}
      (named : ∀ read, lenient = .ok read → names read = true)
      (unknown : ∀ read, lenient = .ok read → hasUnknown read = true) :
      Modes names hasUnknown (.error malformed) lenient

namespace Modes

variable {names hasUnknown : α → Bool} {names' hasUnknown' : β → Bool}
  {names'' hasUnknown'' : γ → Bool} {strict lenient : Except Malformed α}
  {strict' lenient' : Except Malformed β}

theorem error (malformed : Malformed) :
    Modes names hasUnknown (.error malformed) (.error malformed) :=
  refuse (fun _ => nofun) fun _ => nofun

/-- A reading in which the mode makes no difference. -/
theorem same {reading : Except Malformed α}
    (known : ∀ read, reading = .ok read → names read = true ∧ hasUnknown read = false) :
    Modes names hasUnknown reading reading := by
  cases reading with
  | error malformed => exact error malformed
  | ok read => exact agree (known read rfl).1 (known read rfl).2

/-- What is read is put into something that has something unknown exactly if it has. -/
theorem map {put : α → β} (modes : Modes names hasUnknown strict lenient)
    (named : ∀ read, names read = true → names' (put read) = true)
    (unknown : ∀ read, hasUnknown' (put read) = hasUnknown read) :
    Modes names' hasUnknown' (do return put (← strict)) (do return put (← lenient)) := by
  cases modes with
  | @agree read isNamed known => exact agree (named read isNamed) ((unknown read).trans known)
  | refuse areNamed left =>
      cases lenient with
      | error malformed => exact refuse (fun _ => nofun) fun _ => nofun
      | ok read =>
          refine refuse ?_ ?_ <;> rintro _ ⟨⟩
          · exact named read (areNamed read rfl)
          · exact (unknown read).trans (left read rfl)

/-- All that a lenient reading reads names its nodes. -/
theorem named (modes : Modes names hasUnknown strict lenient) :
    ∀ read, lenient = .ok read → names read = true := by
  cases modes with
  | agree named _ =>
      rintro _ ⟨⟩
      exact named
  | refuse named _ => exact named

/-- Two readings, the results of which are put together. -/
theorem both {put : α → β → γ} (first : Modes names hasUnknown strict lenient)
    (second : Modes names' hasUnknown' strict' lenient')
    (named : ∀ left right, names left = true → names' right = true →
      names'' (put left right) = true)
    (unknown : ∀ left right,
      hasUnknown'' (put left right) = (hasUnknown left || hasUnknown' right)) :
    Modes names'' hasUnknown'' (do let left ← strict; return put left (← strict'))
      (do let left ← lenient; return put left (← lenient')) := by
  cases first with
  | @agree left isNamed known =>
      exact second.map (fun right => named left right isNamed)
        fun right => by rw [unknown, known, Bool.false_or]
  | refuse areNamed spoiled =>
      cases lenient with
      | error malformed => exact refuse (fun _ => nofun) fun _ => nofun
      | ok left =>
          cases lenient' with
          | error malformed => exact refuse (fun _ => nofun) fun _ => nofun
          | ok right =>
              refine refuse ?_ ?_ <;> rintro _ ⟨⟩
              · exact named left right (areNamed left rfl) (second.named right rfl)
              · rw [unknown, spoiled left rfl, Bool.true_or]

theorem orUnknown {strict lenient : Except Malformed Tree} (data kind : Value)
    (modes : Modes namesNodes Tree.hasUnknown strict lenient) :
    Modes namesNodes Tree.hasUnknown (Tree.orUnknown true data kind strict)
      (Tree.orUnknown false data kind lenient) := by
  cases modes with
  | agree named known => exact agree named known
  | refuse named unknown =>
      cases lenient with
      | ok tree => exact refuse named unknown
      | error malformed =>
          refine refuse ?_ ?_ <;> rintro _ ⟨⟩
          · rfl
          · rfl

end Modes

/-! ### Statements without parts that could be unknown -/

theorem nodeStmtOfFields_known {fields : List (String × Value)} {tree : Tree}
    (read : nodeStmtOfFields fields = .ok tree) :
    tree.namesNodes = true ∧ tree.hasUnknown = false := by
  obtain ⟨required, _, read⟩ := exists_of_bind_eq_ok read
  obtain ⟨node, _, read⟩ := exists_of_bind_eq_ok read
  obtain ⟨attrs, _, read⟩ := exists_of_bind_eq_ok read
  cases read
  exact ⟨rfl, rfl⟩

theorem attrStmtOfFields_known {fields : List (String × Value)} {tree : Tree}
    (read : attrStmtOfFields fields = .ok tree) :
    tree.namesNodes = true ∧ tree.hasUnknown = false := by
  obtain ⟨target, _, read⟩ := exists_of_bind_eq_ok read
  cases target with
  | text name =>
      dsimp only at read
      split at read
      · obtain ⟨attrs, _, read⟩ := exists_of_bind_eq_ok read
        cases read
        exact ⟨rfl, rfl⟩
      · cases read
  | _ => cases read

/-- What is no list stands for no children if it counts as false. -/
theorem childrenOfScalar_modes (whole : List (String × Value)) (value : Value) :
    Modes allNameNodes anyUnknown
      (if value.isTruthy then malformedValue .childrenNotList (.object whole) else .ok [])
      (if value.isTruthy then malformedValue .childrenNotList (.object whole) else .ok []) := by
  split
  · exact .error _
  · exact .agree rfl rfl

/-- A node reference is known. -/
theorem nodeEndpoint_modes (reading : Except Malformed NodeId) :
    Modes namesNodes hasUnknown (do return .nodeId (← reading)) (do return .nodeId (← reading)) :=
  .same fun _ put_eq => by
    obtain ⟨node, rfl⟩ := exists_of_map_eq_ok put_eq
    exact ⟨rfl, rfl⟩

/-! ### All forms -/

mutual

/-- Strict reading of a value fails exactly if lenient reading leaves something unknown. -/
theorem ofValue_modes : ∀ value : Value,
    Modes namesNodes hasUnknown (ofValue true value) (ofValue false value)
  | .list items => by
      rw [ofValue, ofValue]
      exact (ofItems_modes items).map (fun _ named => named) fun _ => rfl
  | .object fields => by
      rw [ofValue, ofValue]
      apply Modes.orUnknown
      cases Value.field fields "type" with
      | text tag =>
          -- One case for each tag, in the order in which reading asks for them.
          dsimp only
          have children := childrenOfFields_modes fields fields
          split
          · exact children.map (fun _ named => named) fun _ => rfl
          split
          · exact children.map (fun _ named => named) fun _ => rfl
          split
          · exact .same fun _ => nodeStmtOfFields_known
          split
          · have attrs : Modes (fun _ => true) (fun _ => false)
                (attrsOfValue (Value.field fields "attr_list"))
                (attrsOfValue (Value.field fields "attr_list")) :=
              .same fun _ _ => ⟨rfl, rfl⟩
            exact (endpointsOfFields_modes fields fields).both attrs (fun _ _ named _ => named)
              fun _ _ => (Bool.or_false _).symm
          split
          · exact .same fun _ => attrStmtOfFields_known
          split
          · refine .same fun _ put_eq => ?_
            obtain ⟨node, rfl⟩ := exists_of_map_eq_ok put_eq
            exact ⟨rfl, rfl⟩
          · exact .error _
      | _ => exact .error _
  | .null => .orUnknown _ _ (.error _)
  | .bool _ => .orUnknown _ _ (.error _)
  | .int _ => .orUnknown _ _ (.error _)
  | .float _ => .orUnknown _ _ (.error _)
  | .text _ => .orUnknown _ _ (.error _)
  | .markup _ => .orUnknown _ _ (.error _)
  | .edgePos _ => .orUnknown _ _ (.error _)

theorem ofItems_modes : ∀ items : List Value,
    Modes allNameNodes anyUnknown (ofItems true items) (ofItems false items)
  | [] => .agree rfl rfl
  | item :: rest => by
      rw [ofItems, ofItems]
      refine (ofValue_modes item).both (ofItems_modes rest) (fun tree trees named names => ?_)
        fun _ _ => rfl
      rw [allNameNodes, named, names, Bool.and_self]

theorem childrenOfFields_modes (whole : List (String × Value)) :
    ∀ fields : List (String × Value), Modes allNameNodes anyUnknown
      (childrenOfFields true whole fields) (childrenOfFields false whole fields)
  | [] => .agree rfl rfl
  | (key, value) :: rest => by
      rw [childrenOfFields, childrenOfFields]
      split
      · exact childrenOfValue_modes whole value
      · exact childrenOfFields_modes whole rest

theorem childrenOfValue_modes (whole : List (String × Value)) :
    ∀ value : Value, Modes allNameNodes anyUnknown
      (childrenOfValue true whole value) (childrenOfValue false whole value)
  | .list items => ofItems_modes items
  | .object _ => childrenOfScalar_modes whole _
  | .null => .agree rfl rfl
  | .bool _ => childrenOfScalar_modes whole _
  | .int _ => childrenOfScalar_modes whole _
  | .float _ => childrenOfScalar_modes whole _
  | .text _ => childrenOfScalar_modes whole _
  | .markup _ => .error _
  | .edgePos _ => .error _

theorem endpointsOfFields_modes (whole : List (String × Value)) :
    ∀ fields : List (String × Value), Modes allNameNodes anyUnknown
      (endpointsOfFields true whole fields) (endpointsOfFields false whole fields)
  | [] => .error _
  | (key, value) :: rest => by
      rw [endpointsOfFields, endpointsOfFields]
      split
      · exact endpointsOfValue_modes whole value
      · exact endpointsOfFields_modes whole rest

theorem endpointsOfValue_modes (whole : List (String × Value)) :
    ∀ value : Value, Modes allNameNodes anyUnknown
      (endpointsOfValue true whole value) (endpointsOfValue false whole value)
  | .list items => endpointsOfItems_modes items
  | .object _ => .error _
  | .null => .error _
  | .bool _ => .error _
  | .int _ => .error _
  | .float _ => .error _
  | .text _ => .error _
  | .markup _ => .error _
  | .edgePos _ => .error _

theorem endpointsOfItems_modes : ∀ items : List Value,
    Modes allNameNodes anyUnknown (endpointsOfItems true items) (endpointsOfItems false items)
  | [] => .agree rfl rfl
  | item :: rest => by
      rw [endpointsOfItems, endpointsOfItems]
      refine (endpointOfValue_modes item).both (endpointsOfItems_modes rest)
        (fun tree trees named names => ?_) fun _ _ => rfl
      rw [allNameNodes, named, names, Bool.and_self]

theorem endpointOfValue_modes : ∀ value : Value,
    Modes namesNodes hasUnknown (endpointOfValue true value) (endpointOfValue false value)
  | .object fields => by
      rw [endpointOfValue, endpointOfValue]
      split
      · exact (childrenOfFields_modes fields fields).map (fun _ named => named) fun _ => rfl
      · exact nodeEndpoint_modes _
  | .list _ => nodeEndpoint_modes _
  | .null => nodeEndpoint_modes _
  | .bool _ => nodeEndpoint_modes _
  | .int _ => nodeEndpoint_modes _
  | .float _ => nodeEndpoint_modes _
  | .text _ => nodeEndpoint_modes _
  | .markup _ => nodeEndpoint_modes _
  | .edgePos _ => nodeEndpoint_modes _

end

/-! ### Reading and walking -/

/-- What a strict and a lenient reading mean for a walk. -/
structure Readings (names isUnderstood : α → Bool) (strict lenient : Except Malformed α) :
    Prop where
  /-- All that is read names its nodes. -/
  named : ∀ read, lenient = .ok read → names read = true
  /-- The readings are the same, or the strict one fails and the lenient one reads something that
  is not understood, if it reads anything. -/
  related : strict = lenient ∨
    (∃ malformed, strict = .error malformed) ∧
      ∀ read, lenient = .ok read → isUnderstood read = false

theorem isUnderstoodDocument_of_hasUnknown {tree : Tree} (unknown : tree.hasUnknown = true) :
    tree.isUnderstoodDocument = false := by
  cases tree with
  | list items => exact allUnderstood_of_anyUnknown items unknown
  | _ => exact isUnderstood_of_hasUnknown _ unknown

theorem Modes.readings {strict lenient : Except Malformed Tree}
    (modes : Modes namesNodes hasUnknown strict lenient) :
    Readings namesNodes isUnderstoodDocument strict lenient where
  named := modes.named
  related := by
    cases modes with
    | agree _ _ => exact Or.inl rfl
    | refuse _ unknown =>
        exact Or.inr ⟨⟨_, rfl⟩, fun read read_eq =>
          isUnderstoodDocument_of_hasUnknown (unknown read read_eq)⟩

/-- Where the modes of reading differ, the walk has something to report. -/
theorem ofValue_readings (value : Value) :
    Readings namesNodes isUnderstoodDocument (ofValue true value) (ofValue false value) :=
  (ofValue_modes value).readings

/-! ### Lenient reading -/

theorem orUnknown_lenient (data kind : Value) (statement : Except Malformed Tree) :
    ∃ tree, orUnknown false data kind statement = .ok tree := by
  cases statement with
  | ok tree => exact ⟨tree, rfl⟩
  | error malformed => exact ⟨_, rfl⟩

mutual

theorem ofValue_lenient : ∀ value : Value, ∃ tree, ofValue false value = .ok tree
  | .list items => by
      rcases ofItems_lenient items with ⟨trees, items_eq⟩
      exact ⟨.list trees, by rw [ofValue, items_eq]; rfl⟩
  | .object _ => by
      rw [ofValue]
      exact orUnknown_lenient _ _ _
  | .null => ⟨_, rfl⟩
  | .bool _ => ⟨_, rfl⟩
  | .int _ => ⟨_, rfl⟩
  | .float _ => ⟨_, rfl⟩
  | .text _ => ⟨_, rfl⟩
  | .markup _ => ⟨_, rfl⟩
  | .edgePos _ => ⟨_, rfl⟩

theorem ofItems_lenient : ∀ items : List Value, ∃ trees, ofItems false items = .ok trees
  | [] => ⟨[], rfl⟩
  | item :: rest => by
      rcases ofValue_lenient item with ⟨tree, item_eq⟩
      rcases ofItems_lenient rest with ⟨trees, rest_eq⟩
      exact ⟨tree :: trees, by rw [ofItems, item_eq, rest_eq]; rfl⟩

end

/-! ### Plain data in the place of a tree -/

mutual

/-- Plain data in the place of a tree is read as the tagged form that it is. -/
theorem interpret_ofRaw (isStrict : Bool) : ∀ value : Value,
    interpret isStrict (ofRaw value) = ofValue isStrict value
  | .list items => by rw [ofRaw, interpret, ofValue, interpretItems_ofRawItems isStrict items]
  | .object _ => rfl
  | .null => rfl
  | .bool _ => rfl
  | .int _ => rfl
  | .float _ => rfl
  | .text _ => rfl
  | .markup _ => rfl
  | .edgePos _ => rfl

theorem interpretItems_ofRawItems (isStrict : Bool) : ∀ items : List Value,
    interpretItems isStrict (ofRawItems items) = ofItems isStrict items
  | [] => rfl
  | item :: rest => by
      rw [ofRawItems, interpretItems, ofItems, interpret_ofRaw isStrict item,
        interpretItems_ofRawItems isStrict rest]

end

mutual

theorem namesNodes_ofRaw : ∀ value : Value, (ofRaw value).namesNodes = true
  | .list items => by rw [ofRaw, namesNodes, allNameNodes_ofRawItems items]
  | .object _ => rfl
  | .null => rfl
  | .bool _ => rfl
  | .int _ => rfl
  | .float _ => rfl
  | .text _ => rfl
  | .markup _ => rfl
  | .edgePos _ => rfl

theorem allNameNodes_ofRawItems : ∀ items : List Value, allNameNodes (ofRawItems items) = true
  | [] => rfl
  | item :: rest => by
      rw [ofRawItems, allNameNodes, namesNodes_ofRaw item, allNameNodes_ofRawItems rest,
        Bool.and_self]

end

end Tree

end DotLang
