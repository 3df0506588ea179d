/-
  UPDATE through a view, and when views are right.

  1. **The clauses** — a clause is a place in the view's record and a value of the type of its column
     (`forall₂_assigns`).
  2. **A row** — a column of the table gets the bytes of the last field that is this column (`updated_newRecord`).
     If the clause named an earlier field, the last one brings the old value back.
  3. **Views** — they are right exactly without fields of the transactions, with cells that have their place, with
     plain fields only if the last column is one, and with no column that a later one overwrites (`views_iff`).
-/
import Miniob.Sql.ViewWrites

namespace Miniob.Views

open Miniob.Common Miniob.Expr.Cast Miniob.RowStorage
open Miniob.Storage (RecordId)

variable {t : BaseTable}

/-! ## The clauses -/

section Clauses

variable {u : Unspecified} {v : View t}

/-- A value that has been fitted fits. -/
theorem resize_resize {value real : Value} {length : Nat} (h : resize value length = .ok real) :
    resize real length = .ok real ∧ real.attrType = value.attrType := by
  unfold resize at h
  split at h
  · split at h
    · rename_i units hunits
      cases h
      exact ⟨if_pos hunits, rfl⟩
    · cases h
  · -- a text is cut at a NUL, and padded if it is shorter
    rename_i data
    split at h
    · rename_i hlong
      cases h
      exact ⟨if_pos hlong, rfl⟩
    split at h
    · cases h
      refine ⟨?_, rfl⟩
      unfold resize
      dsimp only
      split
      · rfl
      · exact if_pos rfl
    · cases h
      have hle := (List.takeWhile_sublist (· ≠ 0) (l := data)).length_le
      refine ⟨if_pos ?_, rfl⟩
      rw [List.length_append, List.length_replicate]
      omega
  -- a number keeps its value
  · cases h
    rename_i hvectors hchars
    refine ⟨?_, rfl⟩
    cases value with
    | vectors units => exact absurd rfl (hvectors units)
    | chars data => exact absurd rfl (hchars data)
    | ints v | floats v | dates v => rfl

/-- The value has the type of the field, and fits. -/
theorem convertExpression_ok {f : FieldMeta} {e : NewValue} {value : Value}
    (h : convertExpression u f e = .ok value) :
    value.attrType = f.type ∧ f.type ≠ .vectors ∧ resize value f.len = .ok value := by
  unfold convertExpression at h
  obtain ⟨tmp, -, h⟩ := ok_of_bind h
  obtain ⟨real, hcast, h⟩ := ok_of_bind h
  obtain ⟨real', hresize, h⟩ := ok_of_bind h
  obtain ⟨htype, hvectors⟩ := castTo_ok (ok_of_mapError hcast)
  obtain ⟨hagain, hsame⟩ := resize_resize (ok_of_mapError hresize)
  split at h
  · cases h
  · cases h
    exact ⟨hsame.trans htype, hvectors, hagain⟩

/-- Only the type, the length and whether it can be NULL matter of a field. -/
theorem convertExpression_congr {f g : FieldMeta} (htype : f.type = g.type) (hlen : f.len = g.len)
    (hnullable : f.nullable = g.nullable) (e : NewValue) : convertExpression u f e = convertExpression u g e := by
  unfold convertExpression
  rw [htype, hlen, hnullable]

theorem fieldIndex_vacuous (name : String) : v.fieldIndex .vacuous name = v.columnNamed name :=
  List.findIdx?_map

/-- What a clause becomes. -/
def Assigns (u : Unspecified) (v : View t) (clause : SetClause) (a : Assignment (v.fullMeta .vacuous)) : Prop :=
  ∃ (k : Nat) (value : Value), v.columnNamed clause.name = some k ∧ (v.fieldMetas .vacuous)[k]? = some a.column ∧
    convertExpression u a.column clause.value = .ok value ∧ a.bytes = dataBytes u value a.column

/-- Each clause names a column of the view. -/
theorem resolve_ok {seen : List Nat} {clauses : List SetClause}
    {ps : List ({f : FieldMeta // f ∈ (v.fullMeta .vacuous).fields} × NewValue)}
    (h : v.resolve .vacuous seen clauses = .ok ps) :
    List.Forall₂ (fun clause p => ∃ k : Nat, v.columnNamed clause.name = some k ∧
      (v.fieldMetas .vacuous)[k]? = some p.1.val ∧ p.2 = clause.value) clauses ps := by
  induction clauses generalizing seen ps with
  | nil =>
    cases h
    exact .nil
  | cons clause clauses ih =>
    rw [View.resolve] at h
    split at h
    · cases h
    · rename_i k hk
      split at h
      · cases h
      · rename_i f hf
        split at h
        · cases h
        · obtain ⟨rest, hrest, h⟩ := ok_of_bind h
          cases h
          rw [fieldIndex_vacuous] at hk
          exact .cons ⟨k, hk, hf, rfl⟩ (ih hrest)

/-- One value for each clause. -/
theorem convertExpressionToValues_ok {m : TableMeta} {ps : List ({f : FieldMeta // f ∈ m.fields} × NewValue)}
    {as : List (Assignment m)} (h : convertExpressionToValues u ps = .ok as) :
    List.Forall₂ (fun p a => ∃ value, convertExpression u p.1.val p.2 = .ok value ∧ a.column = p.1.val ∧
      a.bytes = dataBytes u value p.1.val) ps as := by
  induction ps generalizing as with
  | nil =>
    cases h
    exact .nil
  | cons p ps ih =>
    obtain ⟨f, e⟩ := p
    rw [convertExpressionToValues] at h
    obtain ⟨value, hvalue, h⟩ := ok_of_bind h
    obtain ⟨values, hvalues, h⟩ := ok_of_bind h
    cases h
    exact .cons ⟨value, hvalue, rfl, rfl⟩ (ih hvalues)

/-- Clause by clause. -/
theorem forall₂_assigns {clauses : List SetClause}
    {ps : List ({f : FieldMeta // f ∈ (v.fullMeta .vacuous).fields} × NewValue)}
    {as : List (Assignment (v.fullMeta .vacuous))} (hps : v.resolve .vacuous [] clauses = .ok ps)
    (has : convertExpressionToValues u ps = .ok as) : List.Forall₂ (Assigns u v) clauses as := by
  refine forall₂_comp (resolve_ok hps) (convertExpressionToValues_ok has) ?_
  rintro clause p a ⟨k, hk, hf, hvalue⟩ ⟨value, hconvert, hcolumn, hbytes⟩
  refine ⟨k, value, hk, ?_, ?_, ?_⟩
  · rw [hf, hcolumn]
  · rw [hcolumn, ← hvalue, hconvert]
  · rw [hbytes, hcolumn]

/-- A field has one place. -/
theorem index_unique {k k' : Nat} {f : FieldMeta} (hk : (v.fieldMetas .vacuous)[k]? = some f)
    (hk' : (v.fieldMetas .vacuous)[k']? = some f) : k = k' := by
  have hpair := List.pairwise_iff_getElem.mp
    (pairwise_initFields (TrxKit.vacuous.trxFields ++ v.attrInfos) 0)
  have hpos := (initFields_mem (List.mem_of_getElem? hk)).2.1
  have hself : ¬ Apart f f := by
    unfold Apart
    omega
  obtain ⟨hlt, hget⟩ := List.getElem?_eq_some_iff.mp hk
  obtain ⟨hlt', hget'⟩ := List.getElem?_eq_some_iff.mp hk'
  rcases Nat.lt_trichotomy k k' with h | h | h
  · have hapart : Apart (v.fieldMetas .vacuous)[k] (v.fieldMetas .vacuous)[k'] := hpair _ _ hlt hlt' h
    rw [hget, hget'] at hapart
    exact absurd hapart hself
  · exact h
  · have hapart : Apart (v.fieldMetas .vacuous)[k'] (v.fieldMetas .vacuous)[k] := hpair _ _ hlt' hlt h
    rw [hget, hget'] at hapart
    exact absurd hapart hself

end Clauses

/-! ## A row -/

section Row

variable {u : Unspecified} {v : View t}

/-- A column that a name stands for is the last one that is its column of the table, unless this is a vector, to
    which no value is cast. -/
def View.NoneOverwritten (v : View t) : Prop :=
  ∀ (name : String) (k : Nat) (c : Column t) (i : Fin t.attributes.length), v.columnNamed name = some k →
    v.columns[k]? = some c → c.item = .field i → Last v.columns i k ∨ (t.attributes.get i).type = .vectors

/-- The last field that is the `i`-th column of the table. -/
theorem field_of_last {k : Nat} {f : FieldMeta} {i : Fin t.attributes.length} (hlast : Last v.columns i k)
    (hf : (v.fieldMetas .vacuous)[k]? = some f) :
    f.type = (t.attributes.get i).type ∧ f.len = (t.attributes.get i).length ∧
      f.nullable = (t.attributes.get i).nullable := by
  obtain ⟨c, offset, hc, rfl⟩ := fieldMetas_eq hf
  obtain ⟨⟨c', hc', hitem⟩, -⟩ := hlast
  obtain rfl := Option.some.inj (hc.symm.trans hc')
  rw [hitem]
  exact ⟨rfl, rfl, rfl⟩

/-- There is one last column of a kind. -/
theorem last_unique {columns : List (Column t)} {k k' : Nat} {i : Fin t.attributes.length}
    (hk : Last columns i k) (hk' : Last columns i k') : k = k' := by
  obtain ⟨⟨c, hc, hitem⟩, hlast⟩ := hk
  obtain ⟨⟨c', hc', hitem'⟩, hlast'⟩ := hk'
  rcases Nat.lt_trichotomy k k' with h | h | h
  · exact absurd hitem' (hlast k' c' h hc')
  · exact h
  · exact absurd hitem (hlast' k c h hc)

/-- The bytes of the field after a scan. -/
theorem columnOf_record {old : Record (t.tableMeta .vacuous)} {memory : Record (v.tableMeta .vacuous)} {k : Nat}
    {f : FieldMeta} {i : Fin t.attributes.length} (hlast : Last v.columns i k)
    (hf : (v.fieldMetas .vacuous)[k]? = some f) :
    columnOf (v.record u .vacuous old memory).val f
      = scanBytes u (cellAt (old.val ++ behindRow u) (t.fieldMeta .vacuous i)) f := by
  obtain ⟨⟨c, hc, hitem⟩, -⟩ := hlast
  have hvalue : (v.values u .vacuous old)[k]? = some (cellAt (old.val ++ behindRow u) (t.fieldMeta .vacuous i)) := by
    unfold View.values
    rw [List.getElem?_map, hc]
    exact congrArg some (congrArg (SelectItem.value u .vacuous old) hitem)
  refine columnOf_fillRecord (pairwise_initFields _ _) ?_ hf hvalue
  intro g hg
  rw [memory.property]
  exact le_of_mem_fieldMetas .vacuous hg

/-- What was read of a column and is written back leaves what it had. -/
theorem readColumn_cellAt {old : Record (t.tableMeta .vacuous)} {f : FieldMeta} {i : Fin t.attributes.length}
    (hlen : f.len = (t.attributes.get i).length) :
    readColumn (t.attributes.get i) (scanBytes u (cellAt (old.val ++ behindRow u) (t.fieldMeta .vacuous i)) f)
      = t.content .vacuous i old := by
  obtain ⟨offset, hmeta⟩ := fieldMeta_eq .vacuous i
  have hle := fieldMeta_le i old
  have hcell : cellAt (old.val ++ behindRow u) (t.fieldMeta .vacuous i) =
      setData (t.attributes.get i).type (columnOf old.val (t.fieldMeta .vacuous i) ++
        (old.val.drop ((t.fieldMeta .vacuous i).offset + (t.fieldMeta .vacuous i).len) ++ behindRow u))
        (t.attributes.get i).length := by
    rw [← drop_offset _ hle, hmeta]
    rfl
  have hcolumn : (columnOf old.val (t.fieldMeta .vacuous i)).length = (t.attributes.get i).length := by
    rw [← fieldMeta_len .vacuous i]
    unfold columnOf
    rw [List.length_take, List.length_drop]
    omega
  have hbehind : 4 ≤ (old.val.drop ((t.fieldMeta .vacuous i).offset + (t.fieldMeta .vacuous i).len)
      ++ behindRow u).length := by
    rw [List.length_append, behindRow, List.length_map, List.length_range]
    omega
  -- the bytes of the column lie in the record, with something behind them
  rw [hcell, readColumn_scanBytes hlen (attrType_setData _ _ _) ?_]
  · exact fit_setData hcolumn hbehind
  · -- a vector is as long as its column
    intro units hunits
    have htype := attrType_setData (t.attributes.get i).type (columnOf old.val (t.fieldMeta .vacuous i) ++
      (old.val.drop ((t.fieldMeta .vacuous i).offset + (t.fieldMeta .vacuous i).len) ++ behindRow u))
      (t.attributes.get i).length
    rw [hunits] at htype
    rw [← htype] at hunits
    rw [← Value.vectors.inj hunits, length_int32sOfBytes]

variable {clauses : List SetClause} {as : List (Assignment (v.fullMeta .vacuous))}
  {old new : Record (t.tableMeta .vacuous)} {memory : Record (v.tableMeta .vacuous)} {rid : RecordId}
  {rows : Rows .vacuous t}

/-- The bytes that are written back into a column of the table. -/
theorem columnOf_newRecord (hold : getRecord .vacuous rows rid = .ok old)
    (h : v.newRecord .vacuous as rows (rid, v.record u .vacuous old memory) = .ok new)
    (i : Fin t.attributes.length) :
    (∃ (k : Nat) (f : FieldMeta), Last v.columns i k ∧ (v.fieldMetas .vacuous)[k]? = some f ∧
      columnOf new.val (t.fieldMeta .vacuous i) =
        ((as.reverse.find? fun a => a.column.offset = f.offset).map Assignment.bytes).getD
          (columnOf (v.record u .vacuous old memory).val f)) ∨
    (∀ c ∈ v.columns, c.item ≠ .field i) ∧
      columnOf new.val (t.fieldMeta .vacuous i) = columnOf old.val (t.fieldMeta .vacuous i) := by
  unfold View.newRecord at h
  -- the view cannot be written: no record is made
  split at h
  · cases h
  rw [bind_ok _ hold] at h
  -- the fields of the view lie within its record
  have hle : ∀ (k : Nat) (c : Column t) (f : FieldMeta), v.columns[k]? = some c →
      (v.fieldMetas .vacuous)[k]? = some f →
      f.len = c.item.attrInfo.length ∧
      f.offset + f.len ≤ (assign as (v.fullRecord .vacuous (v.record u .vacuous old memory))).val.length := by
    intro k c f hc hf
    obtain ⟨c', offset, hc', rfl⟩ := fieldMetas_eq hf
    obtain rfl := Option.some.inj (hc.symm.trans hc')
    refine ⟨rfl, ?_⟩
    rw [(assign as (v.fullRecord .vacuous (v.record u .vacuous old memory))).property, ← recordSize_fullMeta]
    exact le_of_mem_fieldMetas .vacuous (List.mem_of_getElem? hf)
  rcases columnOf_convertViewRecord h (Nat.le_of_eq length_fieldMetas.symm) hle i with
    ⟨k, f, hlast, hf, hcolumn⟩ | hnone
  · -- the last field of the view that stands for the column decides, and of its clauses the last one
    have hassign := exactlyAssigned_assign as (v.fullRecord .vacuous (v.record u .vacuous old memory)) f
      (List.mem_of_getElem? hf)
    refine Or.inl ⟨k, f, hlast, hf, hcolumn.trans (hassign.trans ?_)⟩
    cases as.reverse.find? fun a => a.column.offset = f.offset with
    | some a => rfl
    | none => rfl
  -- no field of the view stands for the column, and it stays
  · exact Or.inr hnone

/-- **A row.** -/
theorem updated_newRecord (hsound : v.NoneOverwritten) (hassigns : List.Forall₂ (Assigns u v) clauses as)
    (hold : getRecord .vacuous rows rid = .ok old)
    (h : v.newRecord .vacuous as rows (rid, v.record u .vacuous old memory) = .ok new) :
    v.Updated u .vacuous clauses old new := by
  intro i
  obtain ⟨offset, hmeta⟩ := fieldMeta_eq .vacuous i
  rcases columnOf_newRecord hold h i with ⟨k, f, hlast, hf, hcolumn⟩ | ⟨hnone, hcolumn⟩
  · obtain ⟨htype, hlen, hnullable⟩ := field_of_last hlast hf
    cases hfind : as.reverse.find? fun a => a.column.offset = f.offset with
    | some a =>
      -- the last field was named
      rw [hfind] at hcolumn
      have ha : a ∈ as := List.mem_reverse.mp (List.mem_of_find?_eq_some hfind)
      have hoffset := List.find?_some hfind
      have heq : a.column = f := fields_inj (m := v.fullMeta .vacuous) a.mem (List.mem_of_getElem? hf)
        (of_decide_eq_true hoffset)
      obtain ⟨clause, hclause, k', value, hk', hf', hconvert, hbytes⟩ := exists_of_forall₂ hassigns a ha
      rw [heq] at hf' hconvert hbytes
      obtain rfl := index_unique hf hf'
      obtain ⟨⟨c, hc, hitem⟩, -⟩ := hlast
      obtain ⟨hattr, hvectors, hresize⟩ := convertExpression_ok hconvert
      refine Or.inl ⟨clause, hclause, ⟨k, c, hk', hc, hitem⟩, value, ?_, ?_⟩
      · rw [← hconvert, hmeta]
        exact convertExpression_congr htype.symm hlen.symm hnullable.symm clause.value
      · have hscan : scanBytes u value f = dataBytes u value f := by
          unfold scanBytes
          rw [hresize]
        unfold BaseTable.content
        rw [hcolumn, Option.map_some, Option.getD_some, hbytes, ← hscan]
        apply readColumn_scanBytes hlen (hattr.trans htype)
        intro units hunits
        rw [hunits] at hattr
        exact absurd hattr.symm hvectors
    | none =>
      -- it has what was read
      rw [hfind] at hcolumn
      refine Or.inr ⟨?_, ?_⟩
      · rintro clause hclause ⟨k', c, hk', hc, hitem⟩
        obtain ⟨a, ha, k'', value, hk'', hf'', hconvert, -⟩ := exists_of_forall₂ hassigns.flip clause hclause
        obtain rfl := Option.some.inj (hk'.symm.trans hk'')
        rcases hsound clause.name k' c i hk' hc hitem with hlast' | hvectors
        · -- it is the last field, so it has its value from the clause
          obtain rfl := last_unique hlast hlast'
          have heq : a.column = f := Option.some.inj (hf''.symm.trans hf)
          have hnone := List.find?_eq_none.mp hfind a (List.mem_reverse.mpr ha)
          exact hnone (decide_eq_true (congrArg FieldMeta.offset heq))
        · -- no value is cast to a vector
          obtain ⟨c', offset', hc', hcolumn'⟩ := fieldMetas_eq hf''
          obtain rfl := Option.some.inj (hc.symm.trans hc')
          refine (convertExpression_ok hconvert).2.1 ?_
          rw [hcolumn', hitem]
          exact hvectors
      · unfold BaseTable.content
        rw [hcolumn, Option.map_none, Option.getD_none, columnOf_record hlast hf]
        exact readColumn_cellAt hlen
  · -- the view does not have the column
    refine Or.inr ⟨?_, ?_⟩
    · rintro clause - ⟨k, c, -, hc, hitem⟩
      exact hnone c (List.mem_of_getElem? hc) hitem
    · unfold BaseTable.content
      rw [hcolumn]

/-- **UPDATE.** -/
theorem updateRight (hscans : v.Scans u .vacuous) (hsound : v.NoneOverwritten) : v.UpdateRight u .vacuous := by
  intro memory filter clauses place rows rows' hnodup h
  unfold View.update at h
  dsimp only at h
  split at h
  · cases h
  obtain ⟨ps, hps, h⟩ := ok_of_bind h
  split at h
  · -- a value cannot be converted, which is no error without a row
    split at h
    · rename_i hempty
      cases h
      rw [scan_eq hscans, List.isEmpty_iff, List.map_eq_nil_iff] at hempty
      refine ⟨[], ?_, ?_⟩
      · rw [List.append_nil]
        refine (List.filter_eq_self.mpr fun r hr => ?_).symm
        rw [Bool.not_eq_true', ← Bool.not_eq_true]
        exact List.filter_eq_nil_iff.mp hempty r hr
      · rw [hempty]
        exact .nil
    · cases h
  -- the rows that satisfy the filter go, and the new ones come behind the others
  · rename_i as has
    obtain ⟨records, hrecords, h⟩ := ok_of_bind h
    obtain ⟨rest, hrest, h⟩ := ok_of_bind h
    obtain ⟨new, rfl, rfl⟩ := insertRecords_eq h
    refine ⟨new, ?_, ?_⟩
    · rw [deleteRecords_eq hrest, map_fst_scan hscans]
      exact congrArg (· ++ new) (filter_not_mem _ hnodup)
    -- row by row, the new record is the old one with the assignments
    · have hrel := forall₂_of_mapM hrecords
      rw [scan_eq hscans, List.forall₂_map_left_iff, List.forall₂_map_right_iff] at hrel
      have hmem : ∀ r ∈ v.named u .vacuous filter rows, getRecord .vacuous rows r.1 = .ok r.2 :=
        fun r hr => getRecord_of_mem hnodup (List.mem_filter.mp hr).1
      refine (List.forall₂_and_left _ _ |>.mpr ⟨hmem, hrel⟩).imp fun old r hr => ?_
      exact updated_newRecord hsound (forall₂_assigns hps has) hr.1 hr.2

end Row

/-! ## A column that is overwritten -/

section Overwritten

variable {u : Unspecified} {v : View t}

/-- There is a value for every type but a vector. -/
theorem exists_convertExpression (f : FieldMeta) (htype : f.type ≠ .vectors) :
    ∃ e value, convertExpression u f e = .ok value := by
  have hconvert : ∀ v value real, castTo u v f.type = .ok value → resize value f.len = .ok real →
      real.isNull = false → convertExpression u f (.value v) = .ok real := by
    intro v value real hcast hresize hnull
    have hget : NewValue.get (.value v) = .ok v := rfl
    have hcast' : (castTo u v f.type).mapError storageRC = .ok value := by
      rw [hcast]
      rfl
    have hresize' : (resize value f.len).mapError storageRC = .ok real := by
      rw [hresize]
      rfl
    unfold convertExpression
    rw [bind_ok _ hget, bind_ok _ hcast', bind_ok _ hresize', hnull, Bool.and_false]
    rfl
  cases hf : f.type with
  | vectors => exact absurd hf htype
  | ints => exact ⟨.value (.ints 1), .ints 1, hconvert _ _ _ (by rw [hf]; rfl) rfl (by decide)⟩
  | floats => exact ⟨.value (.floats 0), .floats 0, hconvert _ _ _ (by rw [hf]; rfl) rfl (by decide)⟩
  | dates =>
    -- the first day of the year 1
    have hscan : Expr.scanDate [49, 45, 49, 45, 49] = some ((1, 1, 1), []) := by decide
    have hcast := castToDate_eq (u := u) hscan (by decide) (by decide)
    have hfits : u.narrow (Expr.dateNumber 1 1 1) = 10101 := if_pos (by decide)
    refine ⟨.value (.chars [49, 45, 49, 45, 49]), .dates 10101, hconvert _ (.dates 10101) _ ?_ rfl (by decide)⟩
    have hstring : Index.setString [49, 45, 49, 45, 49] 5 = [49, 45, 49, 45, 49] := by decide
    have hnull : ¬ (Value.chars [49, 45, 49, 45, 49]).isNull = true := by decide
    have hlen : [(49 : UInt8), 45, 49, 45, 49].length = 5 := rfl
    rw [hf, castTo, CharType.castTo, if_neg hnull, hlen, hstring, hcast, hfits]
  | chars =>
    have hcast : castTo u (.chars [97]) f.type = .ok (.chars [97]) := by
      rw [hf]
      rfl
    by_cases hlen : 1 ≥ f.len
    · exact ⟨.value (.chars [97]), .chars [97], hconvert _ _ _ hcast (if_pos hlen) (by decide)⟩
    · have hnull : ¬ (Value.chars [97]).isNull = true := by decide
      exact ⟨.value (.chars [97]), _, hconvert _ _ _ hcast ((if_neg hlen).trans (if_neg hnull)) rfl⟩

/-- A view of fields writes each of them back. -/
theorem convertViewRecord_ok {data : List UInt8} {cs : List (Column t)} {fs : List FieldMeta}
    (hfields : ∀ c ∈ cs, c.item.isField = true) (record : Record (t.tableMeta .vacuous)) :
    ∃ record', convertViewRecord .vacuous data cs fs record = .ok record' := by
  induction cs generalizing fs record with
  | nil => exact ⟨record, rfl⟩
  | cons c cs ih =>
    cases fs with
    | nil => exact ⟨record, rfl⟩
    | cons f fs =>
      have hc := hfields c List.mem_cons_self
      rw [convertViewRecord]
      cases hitem : c.item with
      | expr info vectors eval =>
        rw [hitem] at hc
        cases hc
      | field i => exact ih (fun c' hc' => hfields c' (List.mem_cons_of_mem _ hc')) _

/-- An UPDATE of the only row by one clause. -/
theorem update_one {name : String} {k : Nat} {f : FieldMeta} {e : NewValue} {value : Value}
    (hwrite : v.canWrite = true) (hfields : ∀ c ∈ v.columns, c.item.isField = true)
    (hname : v.columnNamed name = some k) (hf : (v.fieldMetas .vacuous)[k]? = some f)
    (hvalue : convertExpression u f e = .ok value) (old : Record (t.tableMeta .vacuous)) :
    ∃ as new, List.Forall₂ (Assigns u v) [⟨name, e⟩] as ∧
      v.newRecord .vacuous as [(.min, old)] (.min, v.record u .vacuous old (zeros _)) = .ok new ∧
      v.update u .vacuous (fun _ => zeros _) (fun _ => true) [⟨name, e⟩] (fun _ _ => .ok .min) [(.min, old)]
        = .ok [(.min, new)] := by
  have hmem : f ∈ (v.fullMeta .vacuous).fields := List.mem_of_getElem? hf
  have hresolve : v.resolve .vacuous [] [⟨name, e⟩] = .ok [(⟨f, hmem⟩, e)] := by
    rw [View.resolve, fieldIndex_vacuous, hname]
    dsimp only
    split
    · rename_i hnone
      cases hf.symm.trans hnone
    · rename_i f' hf'
      obtain rfl := Option.some.inj (hf.symm.trans hf')
      rfl
  have hvalues : convertExpressionToValues u [(⟨f, hmem⟩, e)] =
      .ok [⟨f, dataBytes u value f, hmem, length_dataBytes u value f⟩] := by
    rw [convertExpressionToValues, bind_ok _ hvalue]
    rfl
  have hget : getRecord .vacuous [(RecordId.min, old)] RecordId.min = .ok old :=
    getRecord_of_mem (r := (RecordId.min, old)) (List.nodup_singleton _) List.mem_cons_self
  have hdelete : deleteRecords .vacuous [RecordId.min] [(RecordId.min, old)] = .ok [] := by
    rw [deleteRecords, bind_ok _ hget, List.filter_cons, if_neg (by simp)]
    rfl
  have htable : v.hasTable = true := hfields _ (List.head_mem _)
  obtain ⟨new, hnew⟩ : ∃ new, v.newRecord .vacuous [⟨f, dataBytes u value f, hmem, length_dataBytes u value f⟩]
      [(.min, old)] (.min, v.record u .vacuous old (zeros _)) = .ok new := by
    unfold View.newRecord
    rw [htable, Bool.not_true, if_neg Bool.false_ne_true, bind_ok _ hget]
    exact convertViewRecord_ok hfields old
  refine ⟨_, new, forall₂_assigns hresolve hvalues, hnew, ?_⟩
  -- the row is scanned, made anew, taken out and put back
  have hscan : v.scan u .vacuous (fun _ => zeros _) (fun _ => true) [(RecordId.min, old)] =
      [(RecordId.min, v.record u .vacuous old (zeros _))] := scan_all _ _
  have hmap : [(RecordId.min, v.record u .vacuous old (zeros _))].mapM
      (v.newRecord .vacuous [⟨f, dataBytes u value f, hmem, length_dataBytes u value f⟩] [(.min, old)])
        = .ok [new] := by
    rw [List.mapM_cons, bind_ok _ hnew]
    rfl
  unfold View.update
  dsimp only
  rw [hwrite, Bool.not_true, if_neg Bool.false_ne_true, bind_ok _ hresolve, hvalues, hscan]
  dsimp only
  rw [bind_ok _ hmap, List.map_cons, List.map_nil, bind_ok _ hdelete]
  rfl

/-- What is read of the same byte everywhere. -/
theorem content_filled (i : Fin t.attributes.length) (b : UInt8) :
    t.content .vacuous i (filled _ b) =
      readColumn (t.attributes.get i) (List.replicate (t.attributes.get i).length b) := by
  unfold BaseTable.content
  rw [columnOf_filled (fields_le (List.mem_of_getElem? (getElem?_fieldMeta .vacuous i))), fieldMeta_len]

/-- Two records with different contents. -/
theorem content_filled_ne (i : Fin t.attributes.length) :
    t.content .vacuous i (filled _ 0) ≠ t.content .vacuous i (filled _ 1) := by
  rw [content_filled, content_filled]
  have hpos := (t.attributes.get i).length_pos
  obtain ⟨n, hn⟩ := Nat.exists_eq_succ_of_ne_zero (Nat.ne_of_gt hpos)
  unfold readColumn
  have hcons : ∀ b : UInt8, List.replicate (n + 1) b ++ List.replicate 4 0 =
      b :: (List.replicate n b ++ List.replicate 4 (0 : UInt8)) := fun _ => rfl
  rw [hn, hcons, hcons]
  have hlen : ∀ b : UInt8, 3 ≤ (List.replicate n b ++ List.replicate 4 (0 : UInt8)).length := by
    intro b
    rw [List.length_append, List.length_replicate, List.length_replicate]
    omega
  refine setData_ne (Nat.succ_pos n) (fun hvectors => ?_) (hlen 0) (hlen 1)
  have hle := (t.vectors _ (List.get_mem t.attributes i)).le hvectors
  omega

/-- **A later column.**  It brings back what the row had, so the UPDATE does nothing. -/
theorem not_updateRight {name : String} {k : Nat} {c : Column t} {i : Fin t.attributes.length}
    (hwrite : v.canWrite = true) (hfields : ∀ c ∈ v.columns, c.item.isField = true)
    (hname : v.columnNamed name = some k) (hc : v.columns[k]? = some c) (hitem : c.item = .field i)
    (hlast : ¬ Last v.columns i k) (htype : (t.attributes.get i).type ≠ .vectors) : ¬ v.UpdateRight u .vacuous := by
  intro hright
  have hlt : k < (v.fieldMetas .vacuous).length := by
    rw [length_fieldMetas]
    exact (List.getElem?_eq_some_iff.mp hc).1
  obtain ⟨f, hf⟩ : ∃ f, (v.fieldMetas .vacuous)[k]? = some f := ⟨_, List.getElem?_eq_getElem hlt⟩
  obtain ⟨c', offset, hc', hfield⟩ := fieldMetas_eq hf
  obtain rfl := Option.some.inj (hc.symm.trans hc')
  rw [hitem] at hfield
  obtain ⟨e, value, hvalue⟩ := exists_convertExpression (u := u) f (by rw [hfield]; exact htype)
  -- the row is as it was, and should have the value
  have hkept : ∀ b, t.content .vacuous i (filled _ b) = fit (t.attributes.get i).length value := by
    intro b
    obtain ⟨as, new, hassigns, hnew, hupdate⟩ := update_one hwrite hfields hname hf hvalue (filled _ b)
    have hnodup : ([(RecordId.min, filled (t.tableMeta .vacuous) b)].map Prod.fst).Nodup := List.nodup_singleton _
    obtain ⟨new', heq, hrel⟩ := hright _ _ _ _ _ _ hnodup hupdate
    have hothers : v.others u .vacuous (fun _ => true) [(RecordId.min, filled _ b)] = [] := rfl
    rw [hothers, List.nil_append] at heq
    subst heq
    have hnamed : v.named u .vacuous (fun _ => true) [(RecordId.min, filled _ b)]
        = [(RecordId.min, filled _ b)] := rfl
    rw [hnamed] at hrel
    obtain ⟨hupdated, -⟩ := List.forall₂_cons.mp hrel
    have hsame : t.content .vacuous i new = t.content .vacuous i (filled _ b) := by
      have hget := getRecord_of_mem hnodup List.mem_cons_self
      rcases columnOf_newRecord hget hnew i with ⟨k', f', hlast', hf', hcolumn⟩ | ⟨hnone, -⟩
      · have hfind : (as.reverse.find? fun a => a.column.offset = f'.offset) = none := by
          refine List.find?_eq_none.mpr fun a ha hoffset => hlast ?_
          obtain ⟨clause, hclause, k'', value', hk'', hf'', -⟩ :=
            exists_of_forall₂ hassigns a (List.mem_reverse.mp ha)
          obtain rfl := List.mem_singleton.mp hclause
          obtain rfl := Option.some.inj (hname.symm.trans hk'')
          have heq : a.column = f' := fields_inj (m := v.fullMeta .vacuous) a.mem (List.mem_of_getElem? hf')
            (of_decide_eq_true hoffset)
          rw [heq] at hf''
          rwa [index_unique hf'' hf']
        rw [hfind, Option.map_none, Option.getD_none, columnOf_record hlast' hf'] at hcolumn
        unfold BaseTable.content
        rw [hcolumn]
        exact readColumn_cellAt (field_of_last hlast' hf').2.1
      · exact absurd hitem (hnone c (List.mem_of_getElem? hc))
    rcases hupdated i with ⟨clause, hclause, -, value', hvalue', hcontent⟩ | ⟨hnone, -⟩
    · obtain rfl := List.mem_singleton.mp hclause
      obtain ⟨offset', hmeta⟩ := fieldMeta_eq .vacuous i
      have hbase : convertExpression u (t.fieldMeta .vacuous i) e = convertExpression u f e := by
        rw [hmeta, hfield]
        exact convertExpression_congr rfl rfl rfl e
      obtain rfl := Except.ok.inj (hvalue.symm.trans (hbase.symm.trans hvalue'))
      rw [← hsame, hcontent]
    · exact absurd ⟨k, c, hname, hc, hitem⟩ (hnone _ (List.mem_singleton.mpr rfl))
  exact content_filled_ne i ((hkept 0).trans (hkept 1).symm)

end Overwritten

/-! ## Views -/

section

variable (u : Unspecified) (kit : TrxKit) (v : View t)

/-- Scanning gives the SELECT list, a view can be written exactly if it has plain fields only, and a statement that
    succeeds changes what it names. -/
def View.Right : Prop :=
  v.Scans u kit ∧ (v.canWrite = true ↔ ∀ c ∈ v.columns, c.item.isField = true) ∧
    (v.canWrite = true → v.InsertRight u kit ∧ v.UpdateRight u kit ∧ v.DeleteRight u kit)

/-- There are no fields of the transactions, the values have their places, a view that ends with a field has fields
    only, and then no column is overwritten by a later one. -/
structure View.Sound : Prop where
  vacuous : kit = .vacuous
  /-- Each value comes to the column it is for. -/
  kept : v.AllKept u
  plain : (v.columns.getLast v.nonempty).item.isField = true → ∀ c ∈ v.columns, c.item.isField = true
  noneOverwritten : (v.columns.getLast v.nonempty).item.isField = true → v.NoneOverwritten

end

/-- The last expression decides. -/
theorem canWrite_eq (v : View t) : v.canWrite = (v.columns.getLast v.nonempty).item.isField := by
  obtain ⟨columns, c, hcolumns⟩ := (List.eq_nil_or_concat v.columns).resolve_left v.nonempty
  rw [List.concat_eq_append] at hcolumns
  unfold View.canWrite
  rw [List.getLast_congr _ (by simp) hcolumns, hcolumns, List.foldl_append, List.getLast_append_singleton]
  rfl

/-- **Views.** -/
theorem views_iff (u : Unspecified) (kit : TrxKit) (v : View t) : v.Right u kit ↔ v.Sound u kit := by
  have hlast := canWrite_eq v
  constructor
  · rintro ⟨hscans, hwritable, hwrites⟩
    cases kit with
    | mvcc => exact absurd hscans not_scans_mvcc
    | vacuous =>
      refine ⟨rfl, scans_vacuous_iff.mp hscans, fun h => hwritable.mp (hlast.trans h), ?_⟩
      intro h name k c i hname hc hitem
      have hwrite := hlast.trans h
      by_contra hnot
      obtain ⟨hhidden, htype⟩ := not_or.mp hnot
      exact not_updateRight hwrite (hwritable.mp hwrite) hname hc hitem hhidden htype (hwrites hwrite).2.1
  · rintro ⟨rfl, hkept, hplain, hnone⟩
    have hscans := scans_vacuous_iff.mpr hkept
    refine ⟨hscans, ⟨fun h => hplain (hlast.symm.trans h), fun h => ?_⟩, fun h => ?_⟩
    · exact hlast.trans (h _ (List.getLast_mem _))
    · exact ⟨insertRight, updateRight hscans (hnone (hlast.symm.trans h)), deleteRight hscans⟩

/-- A table with one INT. -/
def oneInt : BaseTable := ⟨[⟨.ints, 4, true, AttrInfo.ints_length_pos⟩], by
  intro a ha htype
  obtain rfl := List.mem_singleton.mp ha
  cases htype⟩

/-- The scan under MVCC, `a AS x, a AS y` with an UPDATE of `x`, and `1, a` which can be written. -/
theorem views_fail :
    let u : Unspecified := ⟨fun _ => 0, fun _ => 0, fun _ _ => 0, fun _ => 0⟩
    let a : SelectItem oneInt := .field ⟨0, by decide⟩
    let one : SelectItem oneInt := .expr ⟨.ints, 4, true, by decide⟩ (fun h => by cases h) fun _ => .ints 1
    ¬ (View.mk [⟨"a", a⟩] (by decide)).Right u .mvcc ∧
    ¬ (View.mk [⟨"x", a⟩, ⟨"y", a⟩] (by decide)).Right u .vacuous ∧
    ¬ (View.mk [⟨"one", one⟩, ⟨"a", a⟩] (by decide)).Right u .vacuous := by
  intro u a one
  refine ⟨fun h => not_scans_mvcc h.1, fun h => ?_, fun h => ?_⟩
  · have hfields : ∀ c ∈ [(⟨"x", a⟩ : Column oneInt), ⟨"y", a⟩], c.item.isField = true := by
      intro c hc
      rcases List.mem_pair.mp hc with rfl | rfl
      · rfl
      · rfl
    -- the first column is overwritten by the second one
    have hhidden : ¬ Last [(⟨"x", a⟩ : Column oneInt), ⟨"y", a⟩] ⟨0, by decide⟩ 0 :=
      fun hlast => hlast.2 1 ⟨"y", a⟩ (by decide) rfl rfl
    have hname : (View.mk [⟨"x", a⟩, ⟨"y", a⟩] (by decide)).columnNamed "x" = some 0 := by decide
    exact not_updateRight rfl hfields hname rfl rfl hhidden (by decide) (h.2.2 rfl).2.1
  · have hfield := h.2.1.mp rfl ⟨"one", one⟩ List.mem_cons_self
    cases hfield

end Miniob.Views
