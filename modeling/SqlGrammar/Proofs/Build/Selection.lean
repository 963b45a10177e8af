import Mathlib.Data.List.Induction
import SqlGrammar.Build.SelectBuilder
import SqlGrammar.Proofs.Canonical
import SqlGrammar.Proofs.NumberGrammar

/-!
# Queries that are built call by call

The calls of a query's builder, and what any sequence of them comes to. Some calls collect (the
conditions of the rows, the keys of groups, the entries of the order), some replace what an earlier
call has set, and the columns and the source are set once. Which calls may follow which is a small
machine over the latter two (`SelectCall.next?`); a sequence is complete if it sets the columns.

`SelectCall.query` reads the query off the calls without a builder. What a builder comes to is
compared with it by induction from the last call backwards (`SelectCall.build_eq_described`), and
its text is read back as that query (`SelectCall.Complete.readAs_query`). A scale without a length
is lost on the way (`SelectCall.scale_not_kept`), so that the phrases are demanded to have none.
-/

set_option autoImplicit false

namespace SqlGrammar

open Lexer

/-! ## Calls -/

/-- A call of the builder. -/
inductive SelectCall where
  | resultColumns (columns : List ResultColumn)
  | columnsNamed (names : List String)
  | allColumns
  | distinct
  | fromSource (source : TableSource)
  | fromTable (table : String)
  | filterBy (condition : Expr)
  | andFilterBy (condition : Expr)
  | groupBy (keys : List Expr)
  | having (condition : Expr)
  | orderBy (term : OrderingTerm)
  | limitTo (rows : UInt64)
  | skip (rows : UInt64)

/-- What the calls so far have set. -/
structure SelectStage where
  hasColumns : Bool
  hasSource : Bool

namespace SelectCall

/-- What the call makes of a builder. -/
def apply (b : SelectBuilder) : SelectCall → SelectBuilder
  | resultColumns columns => b.resultColumns columns
  | columnsNamed names => b.columnsNamed names
  | allColumns => b.allColumns
  | distinct => b.distinct
  | fromSource source => b.fromSource source
  | fromTable table => b.fromTable table
  | filterBy condition => b.filterBy condition
  | andFilterBy condition => b.andFilterBy condition
  | groupBy keys => b.groupBy keys
  | having condition => b.having condition
  | orderBy term => b.orderBy term
  | limitTo rows => b.limitTo rows
  | skip rows => b.skip rows

/-- What the builder comes to by the calls, from nothing. -/
def build (calls : List SelectCall) : SelectBuilder := calls.foldl apply .empty

/-- What is set behind the call, if it may be made. Columns and source are set once; repeated rows
are left out behind the columns, and rows picked behind the source. -/
def next? (stage : SelectStage) : SelectCall → Option SelectStage
  | resultColumns _ | columnsNamed _ | allColumns =>
    if stage.hasColumns then none else some { stage with hasColumns := true }
  | distinct => if stage.hasColumns then some stage else none
  | fromSource _ | fromTable _ =>
    if stage.hasSource then none else some { stage with hasSource := true }
  | filterBy _ | andFilterBy _ => if stage.hasSource then some stage else none
  | groupBy _ | having _ | orderBy _ | limitTo _ | skip _ => some stage

/-- What is set behind the calls, if they may be made one behind the other. -/
def stage? (calls : List SelectCall) : Option SelectStage := calls.foldlM next? ⟨false, false⟩

/-- The calls may be made one behind the other, and the query may be built behind the last. -/
def Complete (calls : List SelectCall) : Prop :=
  (stage? calls).any SelectStage.hasColumns = true

instance (calls : List SelectCall) : Decidable (Complete calls) :=
  inferInstanceAs (Decidable (_ = _))

/-! ## What a call is about -/

/-- The columns that the call sets. -/
@[simp] def columns? : SelectCall → Option (List ResultColumn)
  | resultColumns columns => some columns
  | columnsNamed names => some (names.map SelectBuilder.columnOfName)
  | allColumns => some [.all]
  | _ => none

/-- The source that the call sets. -/
@[simp] def source? : SelectCall → Option TableSource
  | fromSource source => some source
  | fromTable table => some (.named table)
  | _ => none

/-- Whether the call leaves out repeated rows. -/
@[simp] def isDistinct : SelectCall → Bool
  | distinct => true
  | _ => false

/-- The keys of groups that the call adds. -/
@[simp] def keys : SelectCall → List Expr
  | groupBy keys => keys
  | _ => []

/-- The condition of the groups that the call sets. -/
@[simp] def groupCondition? : SelectCall → Option Expr
  | having condition => some condition
  | _ => none

/-- The entry of the order that the call adds. -/
@[simp] def term? : SelectCall → Option OrderingTerm
  | orderBy term => some term
  | _ => none

/-- The greatest number of rows that the call sets. -/
@[simp] def limit? : SelectCall → Option UInt64
  | limitTo rows => some rows
  | _ => none

/-- The number of rows to skip that the call sets. -/
@[simp] def offset? : SelectCall → Option UInt64
  | skip rows => some rows
  | _ => none

/-- The phrases that are handed to the call. -/
def phrases : SelectCall → List Phrase
  | resultColumns columns => columns.map .column
  | filterBy condition | andFilterBy condition | having condition => [.expr condition]
  | groupBy keys => keys.map .expr
  | orderBy term => [.term term]
  | _ => []

/-! ## The query of some calls -/

/-- What the last call of a kind has set. -/
def last? {α : Type} (f : SelectCall → Option α) (calls : List SelectCall) : Option α :=
  calls.reverse.findSome? f

/-- The conditions of the rows, from the last call backwards to the one that set a condition
anew. -/
def conditionsBack : List SelectCall → List Expr
  | [] => []
  | filterBy condition :: _ => [condition]
  | andFilterBy condition :: calls => condition :: conditionsBack calls
  | _ :: calls => conditionsBack calls

/-- The conditions of the rows in the order of their calls: the last one that was set anew, and all
that were added behind it. -/
def conditions (calls : List SelectCall) : List Expr := (conditionsBack calls.reverse).reverse

/-- All conditions at once, nested to the left. -/
def conjunction? : List Expr → Option Expr
  | [] => none
  | condition :: more => some (more.foldl Expr.and condition)

/-- A number of rows, at most the greatest whole number of 64 bits, `2 ^ 63 - 1`. -/
def rowsOf (rows : UInt64) : Expr := .number (toString (min rows.toNat 9223372036854775807))

/-- The bound by a number of rows and a number of rows to skip. Rows are skipped behind a bound by
minus one if there is no other. -/
def boundOf (limit offset : Option UInt64) : Option LimitClause :=
  if limit.isNone && offset.isNone then none
  else some ⟨(limit.map rowsOf).getD (.negate (.number "1")), offset.map rowsOf⟩

/-- The query that the calls describe. -/
def query (calls : List SelectCall) : Select where
  distinct := calls.any isDistinct
  columns := (last? columns? calls).getD []
  sources := (calls.filterMap source?).map .table
  filter := conjunction? (conditions calls)
  groupBy := calls.flatMap keys
  having := if (calls.flatMap keys).isEmpty then none else last? groupCondition? calls
  orderBy := calls.filterMap term?
  limit := boundOf (last? limit? calls) (last? offset? calls)

variable {α : Type} {calls : List SelectCall} {call : SelectCall} {stage : SelectStage}

/-! ## One more call -/

theorem build_snoc : build (calls ++ [call]) = call.apply (build calls) := by
  rw [build, List.foldl_append]
  rfl

theorem stage?_snoc : stage? (calls ++ [call]) = (stage? calls).bind (call.next? ·) := by
  simp [stage?, List.foldlM_append]

@[simp] theorem last?_snoc (f : SelectCall → Option α) :
    last? f (calls ++ [call]) = (f call).or (last? f calls) := by
  rw [last?, List.reverse_append, List.reverse_singleton, List.singleton_append,
    List.findSome?_cons]
  cases f call <;> rfl

@[simp] theorem conjunction?_snoc (es : List Expr) (e : Expr) :
    conjunction? (es ++ [e]) = some ((conjunction? es).elim e fun c => c.and e) := by
  cases es with
  | nil => rfl
  | cons first es => simp [conjunction?]

/-- The condition of the rows behind one more call. -/
@[simp] def filterBehind (filter : Option Expr) : SelectCall → Option Expr
  | filterBy condition => some condition
  | andFilterBy condition => some (filter.elim condition fun c => c.and condition)
  | _ => filter

theorem filter_snoc : conjunction? (conditions (calls ++ [call])) =
    call.filterBehind (conjunction? (conditions calls)) := by
  rw [conditions, List.reverse_append, List.reverse_singleton, List.singleton_append]
  cases call with
  | andFilterBy condition =>
    rw [conditionsBack, List.reverse_cons, conjunction?_snoc]
    rfl
  | _ => rfl

/-! ## What the calls come to -/

/-- The builder that has set what the calls are about. -/
def described (calls : List SelectCall) : SelectBuilder where
  query := { query calls with
    columns := [], having := last? groupCondition? calls, limit := none }
  columns := last? columns? calls
  limit := last? limit? calls
  offset := last? offset? calls

/-- Each part of a builder changes by what the call says about that part. -/
theorem described_snoc : described (calls ++ [call]) =
    { query := { query calls with
        distinct := (query calls).distinct || call.isDistinct
        columns := []
        sources := (query calls).sources ++ call.source?.toList.map .table
        filter := call.filterBehind (query calls).filter
        groupBy := (query calls).groupBy ++ call.keys
        having := call.groupCondition?.or (described calls).query.having
        orderBy := (query calls).orderBy ++ call.term?.toList
        limit := none }
      columns := call.columns?.or (described calls).columns
      limit := call.limit?.or (described calls).limit
      offset := call.offset?.or (described calls).offset } := by
  have hsources : [call].filterMap source? = call.source?.toList := by cases call <;> rfl
  have hterms : [call].filterMap term? = call.term?.toList := by cases call <;> rfl
  simp [described, query, filter_snoc, hsources, hterms]

theorem apply_described : call.apply (described calls) = described (calls ++ [call]) := by
  rw [described_snoc]
  cases call with
  | resultColumns columns => simp [apply, SelectBuilder.resultColumns, described]
  | columnsNamed names =>
    simp [apply, SelectBuilder.columnsNamed, SelectBuilder.resultColumns, described]
  | allColumns => simp [apply, SelectBuilder.allColumns, SelectBuilder.resultColumns, described]
  | distinct => simp [apply, SelectBuilder.distinct, described]
  | fromSource source => simp [apply, SelectBuilder.fromSource, described]
  | fromTable table => simp [apply, SelectBuilder.fromTable, SelectBuilder.fromSource, described]
  | filterBy condition => simp [apply, SelectBuilder.filterBy, described]
  | andFilterBy condition =>
    cases h : (query calls).filter <;>
      simp [apply, SelectBuilder.andFilterBy, SelectBuilder.filterBy, described, h]
  | groupBy keys => simp [apply, SelectBuilder.groupBy, described]
  | having condition => simp [apply, SelectBuilder.having, described]
  | orderBy term => simp [apply, SelectBuilder.orderBy, described]
  | limitTo rows => simp [apply, SelectBuilder.limitTo, described]
  | skip rows => simp [apply, SelectBuilder.skip, described]

/-- Whatever the calls are, the builder has set what they are about, by induction from the last call
backwards. -/
theorem build_eq_described (calls : List SelectCall) : build calls = described calls := by
  induction calls using List.reverseRecOn with
  | nil => rfl
  | append_singleton calls call ih => rw [build_snoc, ih, apply_described]

/-- The stage tells whether columns and source are set, and each is set once at most. -/
theorem once_of_stage? (h : stage? calls = some stage) :
    (calls.filterMap columns?).length = stage.hasColumns.toNat ∧
      (calls.filterMap source?).length = stage.hasSource.toNat := by
  induction calls using List.reverseRecOn generalizing stage with
  | nil =>
    cases h
    exact ⟨rfl, rfl⟩
  | append_singleton calls call ih =>
    rw [stage?_snoc] at h
    obtain ⟨before, hbefore, hnext⟩ := Option.bind_eq_some_iff.1 h
    obtain ⟨hcolumns, hsource⟩ := ih hbefore
    rw [List.filterMap_append, List.filterMap_append, List.length_append, List.length_append,
      hcolumns, hsource]
    obtain ⟨hasColumns, hasSource⟩ := before
    cases call <;> cases hasColumns <;> cases hasSource <;> cases hnext <;> exact ⟨rfl, rfl⟩

/-- A complete sequence of calls sets the columns once, and a source once at most. -/
theorem Complete.once (h : Complete calls) :
    (calls.filterMap columns?).length = 1 ∧ (calls.filterMap source?).length ≤ 1 := by
  obtain ⟨stage, hstage, hset⟩ := (Option.any_eq_true _ _).1 h
  obtain ⟨hcolumns, hsource⟩ := once_of_stage? hstage
  rw [hset] at hcolumns
  exact ⟨hcolumns, hsource ▸ stage.hasSource.toNat_le⟩

theorem Complete.exists_columns (h : Complete calls) :
    ∃ columns, last? columns? calls = some columns := by
  obtain ⟨columns, hcolumns⟩ := List.length_eq_one_iff.1 h.once.1
  have hmem : columns ∈ calls.filterMap columns? := hcolumns ▸ List.mem_singleton_self columns
  obtain ⟨call, hcall, hset⟩ := List.mem_filterMap.1 hmem
  refine Option.isSome_iff_exists.1 (List.findSome?_isSome_iff.2 ?_)
  exact ⟨call, List.mem_reverse.2 hcall, Option.isSome_of_eq_some hset⟩

/-! ## The result -/

theorem rowCount_eq (rows : UInt64) : SelectBuilder.rowCount rows = rowsOf rows := by
  have hmax : Int64.maxValue.toNatClampNeg = 9223372036854775807 := by decide
  have hvalue : (Int64.ofNat (min rows.toNat 9223372036854775807)).toInt =
      (min rows.toNat 9223372036854775807 : Nat) := Int64.toInt_ofNat_of_lt (by omega)
  have hsign : ¬ Int64.ofNat (min rows.toNat 9223372036854775807) < 0 := by
    rw [Int64.lt_iff_toInt_lt, hvalue]
    exact Int.not_lt.2 (Int.natCast_nonneg _)
  rw [SelectBuilder.rowCount, Expr.integer, hmax, if_neg hsign, hvalue, Int.natAbs_natCast, rowsOf]

/-- A builder that has set what the calls are about bounds its query as they do. -/
theorem limitClause?_described :
    (described calls).limitClause? = boundOf (last? limit? calls) (last? offset? calls) := by
  have hnone : Expr.integer (-1) = .negate (.number "1") := rfl
  simp only [SelectBuilder.limitClause?, described, funext rowCount_eq, hnone]
  cases last? limit? calls <;> cases last? offset? calls <;> rfl

/-- What is demanded of groups is not written if there are none. -/
theorem pieces_of_ungrouped (q : Select) (h : q.groupBy = []) :
    Select.pieces { q with having := none } = q.pieces := by
  obtain ⟨distinct, columns, sources, filter, groupBy, having, orderBy, limit⟩ := q
  cases h
  rfl

/-- A complete sequence of calls builds a query, which is written as the one that is read off the
calls. -/
theorem Complete.exists_build (h : Complete calls) :
    ∃ q, (build calls).build? = some q ∧
      Rule.toSql .select q = Rule.toSql .select (query calls) := by
  obtain ⟨columns, hcolumns⟩ := h.exists_columns
  let q : Select := { query calls with having := last? groupCondition? calls }
  refine ⟨q, ?_, ?_⟩
  · have hset : (described calls).columns = some columns := hcolumns
    have hquery : (query calls).columns = columns := by rw [query, hcolumns, Option.getD_some]
    rw [build_eq_described, SelectBuilder.build?, hset, Option.map_some, limitClause?_described,
      ← hquery]
    rfl
  · refine congrArg Dialect.sqlite.render (show q.pieces = (query calls).pieces from ?_)
    cases hgroups : calls.flatMap keys with
    | nil =>
      rw [← pieces_of_ungrouped q hgroups]
      simp only [q, query, hgroups, List.isEmpty_nil, if_true]
    | cons => simp only [q, query, hgroups, List.isEmpty_cons, Bool.false_eq_true, if_false]

/-! ## Well-formed queries -/

/-- Every phrase that is handed to the calls is well formed, without comparisons by `IS` and without
escapes. A type in it has a scale only with a length (`TypeName.WellMade`). -/
def Plain (calls : List SelectCall) : Prop :=
  ∀ call ∈ calls, ∀ p ∈ call.phrases, p.WellFormed Phrase.Plain

end SelectCall

/-- Joined by `AND`, plain conditions are a plain condition. -/
theorem Expr.wellFormed_and {left right : Expr} (hleft : left.WellFormed Phrase.Plain)
    (hright : right.WellFormed Phrase.Plain) : (left.and right).WellFormed Phrase.Plain :=
  .intro ⟨trivial, nofun, nofun⟩ (List.forall_mem_cons.2 ⟨hleft, List.forall_mem_cons.2
    ⟨hright, nofun⟩⟩)

namespace SelectCall

variable {calls : List SelectCall}

theorem mem_conditionsBack {e : Expr} (h : e ∈ conditionsBack calls) :
    ∃ call ∈ calls, .expr e ∈ call.phrases := by
  induction calls with
  | nil => cases h
  | cons call calls ih =>
    cases call with
    | filterBy condition =>
      cases List.mem_singleton.1 h
      exact ⟨_, List.mem_cons_self, List.mem_singleton_self _⟩
    | andFilterBy condition =>
      rcases List.mem_cons.1 h with rfl | h
      · exact ⟨_, List.mem_cons_self, List.mem_singleton_self _⟩
      · obtain ⟨call, hcall, he⟩ := ih h
        exact ⟨call, List.mem_cons_of_mem _ hcall, he⟩
    | _ =>
      obtain ⟨call, hcall, he⟩ := ih h
      exact ⟨call, List.mem_cons_of_mem _ hcall, he⟩

theorem wellFormed_conjunction {es : List Expr} (h : ∀ e ∈ es, e.WellFormed Phrase.Plain) :
    ∀ e ∈ conjunction? es, e.WellFormed Phrase.Plain := by
  cases es with
  | nil => nofun
  | cons first es =>
    rintro e ⟨⟩
    obtain ⟨hfirst, hmore⟩ := List.forall_mem_cons.1 h
    -- by induction on the further conditions, with those before them as one
    clear h
    induction es generalizing first with
    | nil => exact hfirst
    | cons second es ih =>
      obtain ⟨hsecond, hmore⟩ := List.forall_mem_cons.1 hmore
      exact ih _ (Expr.wellFormed_and hfirst hsecond) hmore

theorem wellFormed_rowsOf (rows : UInt64) : (rowsOf rows).WellFormed Phrase.Plain :=
  .leaf (isToken_toString _) trivial rfl

theorem wellFormed_boundOf (limit offset : Option UInt64) :
    ∀ l ∈ boundOf limit offset, (Phrase.limit l).WellFormed Phrase.Plain := by
  have hone : (Phrase.expr (.number "1")).WellFormed Phrase.Plain :=
    .leaf (isToken_toString 1) trivial rfl
  have hunbounded : (Phrase.expr (.negate (.number "1"))).WellFormed Phrase.Plain :=
    .single trivial trivial rfl hone
  have hlimit : (Phrase.expr ((limit.map rowsOf).getD (.negate (.number "1")))).WellFormed
      Phrase.Plain := by
    cases limit with
    | none => exact hunbounded
    | some rows => exact wellFormed_rowsOf rows
  intro l hl
  rw [boundOf] at hl
  split at hl
  · cases hl
  · cases hl
    refine .intro ⟨trivial, trivial⟩ (List.forall_mem_cons.2 ⟨hlimit, fun p hp => ?_⟩)
    obtain ⟨e, he, rfl⟩ := Phrase.mem_ofOption.1 hp
    obtain ⟨rows, -, rfl⟩ := Option.map_eq_some_iff.1 he
    exact wellFormed_rowsOf rows

/-- What the last call of a kind has set was handed to one of the calls. -/
theorem mem_of_last? {α : Type} {f : SelectCall → Option α} {a : α} (h : last? f calls = some a) :
    ∃ call ∈ calls, f call = some a := by
  obtain ⟨call, hcall, hset⟩ := List.exists_of_findSome?_eq_some h
  exact ⟨call, List.mem_reverse.1 hcall, hset⟩

section Query

variable (hplain : Plain calls)

include hplain

theorem wellFormed_columns :
    ∀ c ∈ (query calls).columns, (Phrase.column c).WellFormed Phrase.Plain := by
  intro c hc
  rw [query] at hc
  cases hcolumns : last? columns? calls with
  | none =>
    rw [hcolumns] at hc
    cases hc
  | some columns =>
    rw [hcolumns] at hc
    obtain ⟨call, hcall, hset⟩ := mem_of_last? hcolumns
    cases call with
    | resultColumns columns =>
      cases hset
      exact hplain _ hcall _ (List.mem_map_of_mem hc)
    | columnsNamed names =>
      cases hset
      obtain ⟨own, -, rfl⟩ := List.mem_map.1 hc
      rw [SelectBuilder.columnOfName]
      split
      · exact .leaf trivial trivial rfl
      · exact .single trivial trivial rfl (.leaf nofun trivial rfl)
    | allColumns =>
      cases hset
      cases List.mem_singleton.1 hc
      exact .leaf trivial trivial rfl
    | _ => cases hset

theorem wellFormed_filter : ∀ e ∈ (query calls).filter, e.WellFormed Phrase.Plain := by
  refine wellFormed_conjunction fun e he => ?_
  obtain ⟨call, hcall, hphrase⟩ := mem_conditionsBack (List.mem_reverse.1 he)
  exact hplain call (List.mem_reverse.1 hcall) _ hphrase

theorem wellFormed_groupBy : ∀ e ∈ (query calls).groupBy, e.WellFormed Phrase.Plain := by
  intro e he
  obtain ⟨call, hcall, hkey⟩ := List.mem_flatMap.1 he
  cases call with
  | groupBy keys => exact hplain _ hcall _ (List.mem_map_of_mem hkey)
  | _ => cases hkey

theorem wellFormed_having : ∀ e ∈ (query calls).having, e.WellFormed Phrase.Plain := by
  intro e he
  rw [query] at he
  split at he
  · cases he
  · obtain ⟨call, hcall, hset⟩ := mem_of_last? he
    cases call with
    | having condition =>
      cases hset
      exact hplain _ hcall _ (List.mem_singleton_self _)
    | _ => cases hset

theorem wellFormed_orderBy :
    ∀ t ∈ (query calls).orderBy, (Phrase.term t).WellFormed Phrase.Plain := by
  intro t ht
  obtain ⟨call, hcall, hset⟩ := List.mem_filterMap.1 ht
  cases call with
  | orderBy term =>
    cases hset
    exact hplain _ hcall _ (List.mem_singleton_self _)
  | _ => cases hset

theorem wellFormed_query (hcolumns : (query calls).columns ≠ []) :
    (query calls).WellFormed Phrase.Plain := by
  have hgroups : (query calls).having.isSome = true → (query calls).groupBy ≠ [] := by
    intro hsome hnil
    have hkeys : calls.flatMap keys = [] := hnil
    rw [query, hkeys] at hsome
    cases hsome
  refine .intro ⟨⟨hcolumns, hgroups⟩, trivial⟩ fun p hp => ?_
  simp only [Phrase.parts, List.mem_append, List.mem_map, Phrase.mem_ofOption,
    Option.mem_toList] at hp
  rcases hp with ((((⟨c, hc, rfl⟩ | ⟨e, he, rfl⟩) | ⟨e, he, rfl⟩) | ⟨e, he, rfl⟩) |
    ⟨t, ht, rfl⟩) | ⟨l, hl, rfl⟩
  · exact wellFormed_columns hplain c hc
  · exact wellFormed_filter hplain e he
  · exact wellFormed_groupBy hplain e he
  · exact wellFormed_having hplain e he
  · exact wellFormed_orderBy hplain t ht
  · exact wellFormed_boundOf _ _ l hl

end Query

/-- Calls that are `Complete` and set some columns build a query whose text is read back as `(query
calls).regroup .written`: as the query that the calls describe, with parentheses around some
operands and otherwise unchanged. Their phrases are to be `Plain`, which includes that no type has a
scale without a length. -/
theorem Complete.readAs_query (h : Complete calls) (hcolumns : (query calls).columns ≠ [])
    (hplain : Plain calls) :
    ∃ q, (build calls).build? = some q ∧
      Rule.ReadAs .select (Rule.toSql .select q) ((query calls).regroup .written) := by
  obtain ⟨q, hbuild, htext⟩ := h.exists_build
  have hwf : (query calls).WellFormed Phrase.Unambiguous :=
    (wellFormed_query hplain hcolumns).mono fun _ hp => hp.unambiguous
  refine ⟨q, hbuild, ?_⟩
  rw [htext]
  exact parseRule_toSql (r := .select) hwf

end SelectCall

/-- Rows are skipped ahead of everything else, a condition is replaced by a disjunction to which a
negation is added, and there are no groups for the condition of the groups. -/
def unorderedCalls : List SelectCall :=
  [.skip 5, .having (.ofColumn "h"), .fromTable "order", .andFilterBy (.ofColumn "x"),
    .filterBy ((Expr.ofColumn "a").or (.ofColumn "b")), .columnsNamed ["*", "select"],
    .andFilterBy (Expr.ofColumn "c").not, .orderBy (.descending (.ofColumn "k")), .distinct]

theorem unorderedCalls_plain : SelectCall.Plain unorderedCalls := by
  have hcolumn : ∀ own, (Phrase.expr (.ofColumn own)).WellFormed Phrase.Plain :=
    fun own => .leaf nofun trivial rfl
  have hor : (Phrase.expr ((Expr.ofColumn "a").or (.ofColumn "b"))).WellFormed Phrase.Plain :=
    .intro ⟨trivial, nofun, nofun⟩ (List.forall_mem_cons.2 ⟨hcolumn "a", List.forall_mem_cons.2
      ⟨hcolumn "b", nofun⟩⟩)
  have hnot : (Phrase.expr (Expr.ofColumn "c").not).WellFormed Phrase.Plain :=
    .single trivial trivial rfl (hcolumn "c")
  have hterm : (Phrase.term (.descending (.ofColumn "k"))).WellFormed Phrase.Plain :=
    .single trivial trivial rfl (hcolumn "k")
  have hone : ∀ q : Phrase, q.WellFormed Phrase.Plain →
      ∀ p ∈ [q], Phrase.WellFormed Phrase.Plain p :=
    fun q hq => List.forall_mem_cons.2 ⟨hq, nofun⟩
  intro call hcall
  simp only [unorderedCalls, List.mem_cons, List.not_mem_nil, or_false] at hcall
  rcases hcall with rfl | rfl | rfl | rfl | rfl | rfl | rfl | rfl | rfl
  · nofun
  · exact hone _ (hcolumn "h")
  · nofun
  · exact hone _ (hcolumn "x")
  · exact hone _ hor
  · nofun
  · exact hone _ hnot
  · exact hone _ hterm
  · nofun

theorem SelectCall.Complete.readAs_query_unordered : SelectCall.Complete unorderedCalls ∧
    SelectCall.Plain unorderedCalls ∧
    ∃ q, (SelectCall.build unorderedCalls).build? = some q ∧
      Rule.ReadAs .select (Rule.toSql .select q)
        { distinct := true
          columns := [.all, .expr (.ofColumn "select") none]
          sources := [.table (.named "order")]
          filter := some (.and (.paren (.or (.ofColumn "a") (.ofColumn "b")))
            (.not (.ofColumn "c")))
          groupBy := []
          having := none
          orderBy := [.descending (.ofColumn "k")]
          limit := some ⟨.negate (.number "1"), some (.number "5")⟩ } := by
  have hcomplete : SelectCall.Complete unorderedCalls := by decide
  obtain ⟨q, hbuild, hread⟩ :=
    SelectCall.Complete.readAs_query hcomplete (by exact List.cons_ne_nil _ _) unorderedCalls_plain
  exact ⟨hcomplete, unorderedCalls_plain, q, hbuild, hread⟩

/-! ## A scale without a length -/

/-- The demands of `Phrase.WellMade`, but a type may have a scale and no length. -/
def Phrase.MadeWithoutLength : Phrase → Prop
  | expr (.cast _ type) => (∀ n ∈ type.length, n.WellMade) ∧ ∀ n ∈ type.scale, n.WellMade
  | p => p.WellMade

/-- The column `a`, cast to the type `T` with the scale `2` and no length. -/
def scaledCalls : List SelectCall :=
  [.resultColumns [.expr (.cast (.ofColumn "a") ⟨"T", none, some ⟨"2"⟩⟩) none]]

/-- In `SelectCall.Complete.readAs_query`, the demand for a length is necessary: a scale is written
only behind a length. `SELECT CAST(a AS T)` is built of `scaledCalls`, whose phrases fulfil all the
other demands, and is read as the query without the scale, so that no `Grouping` of the query that
the calls describe is what is read. -/
theorem SelectCall.scale_not_kept :
    SelectCall.Complete scaledCalls ∧ (SelectCall.query scaledCalls).columns ≠ [] ∧
      (∀ call ∈ scaledCalls, ∀ p ∈ call.phrases,
        p.Every fun q => q.MadeWithoutLength ∧ q.Plain) ∧
      (SelectCall.build scaledCalls).build? = some (SelectCall.query scaledCalls) ∧
      Rule.toSql .select (SelectCall.query scaledCalls) = "SELECT CAST(a AS T)" ∧
      Rule.ReadAs .select "SELECT CAST(a AS T)"
        { SelectCall.query scaledCalls with
          columns := [.expr (.cast (.ofColumn "a") ⟨"T", none, none⟩) none] } ∧
      ∀ g, ¬ Rule.ReadAs .select "SELECT CAST(a AS T)"
        ((SelectCall.query scaledCalls).regroup g) := by
  let unscaled : Select :=
    { SelectCall.query scaledCalls with
      columns := [.expr (.cast (.ofColumn "a") ⟨"T", none, none⟩) none] }
  have hunscaled : unscaled.WellFormed Phrase.Unambiguous := by
    have hname : (Phrase.expr (.ofColumn "a")).WellFormed Phrase.Unambiguous :=
      .leaf nofun trivial rfl
    have hcast : (Phrase.expr (.cast (.ofColumn "a") ⟨"T", none, none⟩)).WellFormed
        Phrase.Unambiguous := .single ⟨nofun, nofun⟩ trivial rfl hname
    have hcolumn : (Phrase.column (.expr (.cast (.ofColumn "a") ⟨"T", none, none⟩)
        none)).WellFormed Phrase.Unambiguous := .single trivial trivial rfl hcast
    exact .single ⟨nofun, nofun⟩ trivial rfl hcolumn
  have htext : Rule.toSql .select unscaled = "SELECT CAST(a AS T)" := by decide
  have hread : Rule.ReadAs .select "SELECT CAST(a AS T)" unscaled :=
    htext ▸ parseRule_toSql (r := .select) hunscaled
  have hscale : SignedNumber.WellMade ⟨"2"⟩ :=
    ⟨"", List.mem_cons_self, "2", rfl, isToken_toString 2⟩
  refine ⟨by decide, List.cons_ne_nil _ _, ?_, rfl, by decide, hread, fun g hsame => ?_⟩
  · intro call hcall p hp
    cases List.mem_singleton.1 hcall
    cases List.mem_singleton.1 hp
    refine .intro ⟨trivial, trivial⟩ (List.forall_mem_singleton.2 ?_)
    refine .intro ⟨⟨nofun, ?_⟩, trivial⟩ (List.forall_mem_singleton.2 ?_)
    · rintro n ⟨⟩
      exact hscale
    · exact .intro ⟨nofun, trivial⟩ nofun
  · -- parentheses keep the type, whatever the grouping
    have hcolumns := congrArg Select.columns (hread.unique hsame)
    rw [Select.regroup_eq] at hcolumns
    cases hcolumns

end SqlGrammar
