import SqlGrammar.Proofs.Reading.Placeholders

/-!
# Insertions that are built call by call

The calls of an insertion's builder, and what any sequence of them comes to: how long the row is,
which value each place of it gets, and what the statement is. Which calls may follow which is a
small machine over what the calls before have set (`InsertCall.next?`); a sequence is complete if it
leads from nothing to a table and a value.

The row depends on the values, but the statement only on how many there are, and it is read back
exactly from its text (`InsertCall.Complete.builds`).
-/

set_option autoImplicit false

namespace SqlGrammar

/-! ## Calls -/

/-- A call of the builder. The values are of any types whose values can be bound. -/
inductive InsertCall where
  | intoTable (table : String)
  | inSchema (schema : String)
  | intoColumns (columns : List String)
  | orElse (resolution : ConflictResolution)
  | replace
  | value {α : Type} [ToBindValue α] (value : α)
  | valueAt {α : Type} [ToBindValue α] (index : Nat) (value : α)

/-- What the calls so far have set. -/
structure InsertStage where
  hasTable : Bool
  hasValues : Bool
  deriving DecidableEq, Repr

namespace InsertCall

/-- What the call makes of a builder. -/
def apply (b : InsertBuilder) : InsertCall → InsertBuilder
  | intoTable table => b.intoTable table
  | inSchema schema => b.inSchema schema
  | intoColumns columns => b.intoColumns columns
  | orElse resolution => b.orElse resolution
  | replace => b.replace
  | value v => b.value v
  | valueAt index v => b.valueAt index v

/-- What the builder comes to by the calls, from nothing. -/
def build (calls : List InsertCall) : InsertBuilder := calls.foldl apply .empty

/-- What is set behind the call, if it may be made. The table is set once, and its schema and
columns behind it. -/
def next? (stage : InsertStage) : InsertCall → Option InsertStage
  | intoTable _ => if stage.hasTable then none else some { stage with hasTable := true }
  | inSchema _ | intoColumns _ => if stage.hasTable then some stage else none
  | orElse _ | replace => some stage
  | value _ | valueAt _ _ => some { stage with hasValues := true }

/-- The calls may be made one behind the other, and the statement may be built behind the last. -/
def Complete (calls : List InsertCall) : Prop :=
  calls.foldlM next? ⟨false, false⟩ = some ⟨true, true⟩

instance (calls : List InsertCall) : Decidable (Complete calls) :=
  inferInstanceAs (Decidable (_ = _))

/-! ## Rows -/

/-- The length of a row behind the call. -/
def extend (length : Nat) : InsertCall → Nat
  | value _ => length + 1
  | valueAt index _ => max length (index + 1)
  | _ => length

/-- The place that the call writes in a row of some length, and what it writes there. -/
def write? (length : Nat) : InsertCall → Option (Nat × BindValue)
  | value v => some (length, toBindValue v)
  | valueAt index v => some (index, toBindValue v)
  | _ => none

/-- The length of the row. -/
def rowLength (calls : List InsertCall) : Nat := calls.foldl extend 0

/-- All that the calls write, the last of it at the end. -/
def writes : Nat → List InsertCall → List (Nat × BindValue)
  | _, [] => []
  | length, call :: calls => (call.write? length).toList ++ writes (call.extend length) calls

/-- The value that the last call to write a place wrote there, and null if there is no such call. -/
def lastWritten (calls : List InsertCall) (place : Nat) : BindValue :=
  ((writes 0 calls).reverse.lookup place).getD .null

/-- The call with no value in particular. -/
def erase : InsertCall → InsertCall
  | value _ => value BindValue.null
  | valueAt index _ => valueAt index BindValue.null
  | call => call

end InsertCall

namespace InsertBuilder

variable (b : InsertBuilder) (call : InsertCall) (calls : List InsertCall)

/-! ## What is set -/

/-- What has been set. -/
def stage : InsertStage := ⟨b.table.isSome, !b.values.isEmpty⟩

variable {b call calls}

theorem stage_apply {stage : InsertStage} (h : call.next? b.stage = some stage) :
    (call.apply b).stage = stage := by
  cases call with
  | intoTable table =>
    rw [InsertCall.next?] at h
    split at h
    · cases h
    · cases h
      rfl
  | inSchema schema =>
    rw [InsertCall.next?] at h
    split at h
    · cases h
      rfl
    · cases h
  | intoColumns columns =>
    rw [InsertCall.next?] at h
    split at h
    · cases h
      rfl
    · cases h
  | orElse resolution =>
    cases h
    rfl
  | replace =>
    cases h
    rfl
  | value v =>
    cases h
    simp [stage, InsertCall.apply, value]
  | valueAt index v =>
    cases h
    -- if the row was empty, a place at least has been added
    have hpadded : b.values = [] → ¬ index + 1 - b.values.length = 0 := by
      intro hnil
      rw [hnil, List.length_nil]
      omega
    simpa [stage, InsertCall.apply, valueAt] using hpadded

/-- What the calls lead to is what the builder has set, by induction on the calls. -/
theorem stage_foldl {stage : InsertStage} (h : calls.foldlM InsertCall.next? b.stage = some stage) :
    (calls.foldl InsertCall.apply b).stage = stage := by
  induction calls generalizing b with
  | nil => exact Option.some.inj h
  | cons call calls ih =>
    obtain ⟨next, hnext, hrest⟩ := Option.bind_eq_some_iff.1 h
    rw [← stage_apply hnext] at hrest
    exact ih hrest

/-! ## The row -/

theorem length_apply : (call.apply b).values.length = call.extend b.values.length := by
  cases call with
  | value v => simp [InsertCall.apply, InsertCall.extend, value]
  | valueAt index v =>
    simp only [InsertCall.apply, InsertCall.extend, valueAt, List.length_set, List.length_append,
      List.length_replicate]
    omega
  | _ => rfl

theorem length_foldl :
    (calls.foldl InsertCall.apply b).values.length =
      calls.foldl InsertCall.extend b.values.length := by
  induction calls generalizing b with
  | nil => rfl
  | cons call calls ih => rw [List.foldl_cons, List.foldl_cons, ih, length_apply]

theorem getD_padded (values : List BindValue) (n place : Nat) :
    (values ++ List.replicate n BindValue.null).getD place .null = values.getD place .null := by
  rw [List.getD_eq_getElem?_getD, List.getD_eq_getElem?_getD]
  rcases Nat.lt_or_ge place values.length with hlt | hge
  · rw [List.getElem?_append_left hlt]
  · rw [List.getElem?_append_right hge, List.getElem?_eq_none hge, List.getElem?_replicate]
    split <;> rfl

/-- Adding a value is setting the place behind the last one. -/
theorem value_eq_valueAt {α : Type} [ToBindValue α] (v : α) :
    b.value v = b.valueAt b.values.length v := by
  simp [value, valueAt]

theorem getD_valueAt {α : Type} [ToBindValue α] (index : Nat) (v : α) (place : Nat) :
    (b.valueAt index v).values.getD place .null =
      ([(index, toBindValue v)].lookup place).getD (b.values.getD place .null) := by
  rw [valueAt]
  dsimp only
  by_cases hplace : place = index
  · subst hplace
    -- the place is there, as the row has been padded
    have hlt : place < (b.values ++
        List.replicate (place + 1 - b.values.length) BindValue.null).length := by
      rw [List.length_append, List.length_replicate]
      omega
    rw [List.getD_eq_getElem?_getD, List.getElem?_set_self hlt, List.lookup_cons_self]
    rfl
  · rw [List.getD_eq_getElem?_getD, List.getElem?_set_ne (Ne.symm hplace),
      ← List.getD_eq_getElem?_getD, getD_padded, List.lookup_cons, beq_false_of_ne hplace]
    rfl

/-- A call changes the place that it writes and no other; a place that the row did not have had
null in it. -/
theorem getD_apply (place : Nat) :
    (call.apply b).values.getD place .null =
      ((call.write? b.values.length).toList.lookup place).getD (b.values.getD place .null) := by
  cases call with
  | value v =>
    rw [InsertCall.apply, value_eq_valueAt]
    exact getD_valueAt b.values.length v place
  | valueAt index v => exact getD_valueAt index v place
  | _ => rfl

/-- What the calls together write is what is left in the row, by induction on the calls. -/
theorem getD_foldl (place : Nat) :
    (calls.foldl InsertCall.apply b).values.getD place .null =
      ((InsertCall.writes b.values.length calls).reverse.lookup place).getD
        (b.values.getD place .null) := by
  induction calls generalizing b with
  | nil => rfl
  | cons call calls ih =>
    rw [List.foldl_cons, ih, length_apply, getD_apply, InsertCall.writes, List.reverse_append,
      List.lookup_append]
    -- a call writes one place at most
    have hone : (call.write? b.values.length).toList.reverse =
        (call.write? b.values.length).toList := by
      cases call.write? b.values.length <;> rfl
    rw [hone, Option.getD_or]

/-! ## The statement -/

/-- The builder with no values in particular. -/
def erase (b : InsertBuilder) : InsertBuilder :=
  { b with values := b.values.map fun _ => .null }

theorem erase_apply : (call.apply b).erase = call.erase.apply b.erase := by
  cases call with
  | value v => simp [InsertCall.apply, InsertCall.erase, value, erase, toBindValue]
  | valueAt index v =>
    simp [InsertCall.apply, InsertCall.erase, valueAt, erase, toBindValue, List.map_set]
  | _ => rfl

theorem erase_foldl :
    (calls.foldl InsertCall.apply b).erase =
      (calls.map InsertCall.erase).foldl InsertCall.apply b.erase := by
  induction calls generalizing b with
  | nil => rfl
  | cons call calls ih => rw [List.foldl_cons, ih, erase_apply, List.map_cons, List.foldl_cons]

/-- A statement does not depend on the values. -/
theorem build?_erase (b : InsertBuilder) : b.erase.build?.map Prod.fst = b.build?.map Prod.fst := by
  obtain ⟨verb, schema, _ | table, columns, _ | ⟨v, values⟩⟩ := b <;> simp [erase, build?]

/-- With a table and a value there is a statement. -/
theorem build?_of_stage (h : b.stage = ⟨true, true⟩) :
    ∃ table n, b.values.length = n + 1 ∧ b.build? =
      some (⟨b.verb, ⟨b.schema, table⟩, b.columns, .values [List.replicate (n + 1) .placeholder]⟩,
        b.values) := by
  obtain ⟨verb, schema, _ | table, columns, _ | ⟨v, values⟩⟩ := b
  · cases h
  · cases h
  · cases h
  · refine ⟨table, values.length, rfl, ?_⟩
    rw [build?, List.map_const', List.length_cons]

end InsertBuilder

/-- Calls that are `Complete` build a statement with a row. The row is as long as `rowLength` says,
and has in each place what was `lastWritten` there, or null; the statement has one row, with a
placeholder for each place, and is read back exactly from its text, for which three levels are
enough. Calls that differ in the values only (`erase`) have the same text. -/
theorem InsertCall.Complete.builds {calls : List InsertCall} (h : InsertCall.Complete calls) :
    ∃ (statement : Insert) (row : List BindValue),
      (InsertCall.build calls).build? = some (statement, row) ∧
      row.length = InsertCall.rowLength calls ∧
      (∀ place, place < row.length → row[place]? = some (InsertCall.lastWritten calls place)) ∧
      statement.source =
        .values [List.replicate (InsertCall.rowLength calls) .placeholder] ∧
      (∀ depth, 3 ≤ depth →
        parseRule .insert (Rule.toSql .insert statement) depth = .ok statement) ∧
      ∀ calls' : List InsertCall, calls'.map InsertCall.erase = calls.map InsertCall.erase →
        ∃ (statement' : Insert) (row' : List BindValue),
          (InsertCall.build calls').build? = some (statement', row') ∧
          Rule.toSql .insert statement' = Rule.toSql .insert statement := by
  have hstage : (InsertCall.build calls).stage = ⟨true, true⟩ := InsertBuilder.stage_foldl h
  obtain ⟨table, n, hlength, hbuild⟩ := InsertBuilder.build?_of_stage hstage
  have hrow : (InsertCall.build calls).values.length = InsertCall.rowLength calls :=
    InsertBuilder.length_foldl
  refine ⟨_, _, hbuild, hrow, fun place hplace => ?_, ?_, fun depth hdepth => ?_,
    fun calls' hsame => ?_⟩
  · have hvalue : (InsertCall.build calls).values.getD place .null =
        InsertCall.lastWritten calls place := InsertBuilder.getD_foldl place
    rw [← hvalue, List.getD_eq_getElem?_getD, List.getElem?_eq_getElem hplace, Option.getD_some]
  · rw [← hrow, hlength]
  · exact parseRule_insert_of_placeholders _ _ _ n hdepth
  · -- without their values both come to the same
    have herase : (InsertCall.build calls').erase = (InsertCall.build calls).erase := by
      rw [InsertCall.build, InsertBuilder.erase_foldl, hsame, ← InsertBuilder.erase_foldl,
        ← InsertCall.build]
    have hfst := InsertBuilder.build?_erase (InsertCall.build calls')
    rw [herase, InsertBuilder.build?_erase, hbuild] at hfst
    obtain ⟨⟨statement', row'⟩, hbuild', hstatement⟩ := Option.map_eq_some_iff.1 hfst.symm
    exact ⟨statement', row', hbuild', congrArg (Rule.toSql .insert) hstatement⟩

/-- A value is added before there is a table, a place is skipped, and the first one overwritten. -/
def scatteredCalls : List InsertCall :=
  [.value true, .intoTable "t", .valueAt 2 "c", .inSchema "", .replace, .valueAt 0 BindValue.null,
    .intoColumns ["a\"b", "select", "c"]]

theorem InsertCall.Complete.builds_scattered : InsertCall.Complete scatteredCalls ∧
    ∃ statement row, (InsertCall.build scatteredCalls).build? = some (statement, row) ∧
      row.length = 3 ∧ row[2]? = some (.text "c") ∧
      statement.source = .values [[.placeholder, .placeholder, .placeholder]] ∧
      parseRule .insert (Rule.toSql .insert statement) defaultMaxDepth = .ok statement := by
  have hcomplete : InsertCall.Complete scatteredCalls := by decide
  obtain ⟨statement, row, hbuild, hlength, hplaces, hsource, hparse, -⟩ :=
    InsertCall.Complete.builds hcomplete
  have hthree : InsertCall.rowLength scatteredCalls = 3 := rfl
  rw [hthree] at hlength hsource
  refine ⟨hcomplete, statement, row, hbuild, hlength, ?_, hsource, hparse _ (by decide)⟩
  rw [hplaces 2 (by omega)]
  rfl

end SqlGrammar
