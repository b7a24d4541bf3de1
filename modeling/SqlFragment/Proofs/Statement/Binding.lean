import SqlFragment.Proofs.Statement.Ledger
import SqlFragment.Statement.Basic

/-
Binding values to placeholders. The values of a statement are those of the ledger of its session, in
the order of the placeholders or in the order of the first occurrences, although they are collected
from a table that is sorted by name.
-/
namespace SqlFragment

section
variable {α β ε : Type}

theorem eq_of_key_eq {key : α → β} {xs : List α} (once : (xs.map key).Nodup) {a b : α}
    (ha : a ∈ xs) (hb : b ∈ xs) (same : key a = key b) : a = b := by
  induction xs with
  | nil => cases ha
  | cons x xs ih =>
    rw [List.map_cons, List.nodup_cons] at once
    have elsewhere : ∀ y ∈ xs, key x ≠ key y := by
      intro y mem eq
      exact once.1 (eq ▸ List.mem_map_of_mem mem)
    rcases List.mem_cons.mp ha with ha | ha <;> rcases List.mem_cons.mp hb with hb | hb
    · rw [ha, hb]
    · exact absurd (ha ▸ same) (elsewhere b hb)
    · exact absurd (hb ▸ same.symm) (elsewhere a ha)
    · exact ih once.2 ha hb

theorem nodup_of_keys {key : α → β} {xs : List α} (once : (xs.map key).Nodup) : xs.Nodup :=
  List.Pairwise.of_map key (fun _ _ different same => different (congrArg key same)) once

/-- Pairs with different keys are sorted into the list that holds the same pairs by increasing
keys. -/
theorem mergeSort_eq_of_mem_iff {pairs target : List (Nat × α)}
    (once : (pairs.map Prod.fst).Nodup) (increasing : (target.map Prod.fst).Pairwise (· < ·))
    (same : ∀ x, x ∈ pairs ↔ x ∈ target) :
    pairs.mergeSort (fun a b => a.1 ≤ b.1) = target := by
  have distinct : (target.map Prod.fst).Nodup := increasing.imp Nat.ne_of_lt
  have perm : (pairs.mergeSort fun a b => a.1 ≤ b.1).Perm target :=
    (List.mergeSort_perm pairs _).trans
      ((List.perm_ext_iff_of_nodup (nodup_of_keys once) (nodup_of_keys distinct)).mpr same)
  have sorted : (pairs.mergeSort fun a b => a.1 ≤ b.1).Pairwise fun a b => a.1 ≤ b.1 := by
    refine List.Pairwise.imp of_decide_eq_true (List.pairwise_mergeSort ?_ ?_ pairs)
    · intro a b c
      simp only [decide_eq_true_eq]
      omega
    · intro a b
      simp only [Bool.or_eq_true, decide_eq_true_eq]
      omega
  refine List.Perm.eq_of_pairwise ?_ sorted ?_ perm
  · intro a b ha hb le ge
    exact eq_of_key_eq distinct (perm.mem_iff.mp ha) hb (Nat.le_antisymm le ge)
  · rw [List.pairwise_map] at increasing
    exact increasing.imp Nat.le_of_lt

theorem mapM_ok {f : α → Except ε β} {g : α → β} {xs : List α} (each : ∀ x ∈ xs, f x = .ok (g x)) :
    xs.mapM f = .ok (xs.map g) := by
  induction xs with
  | nil => rfl
  | cons x xs ih =>
    rw [List.mapM_cons, each x List.mem_cons_self,
      ih fun y mem => each y (List.mem_cons_of_mem x mem)]
    rfl

theorem ok_of_mapM_ok {f : α → Except ε β} {xs : List α} {ys : List β} (ok : xs.mapM f = .ok ys)
    {x : α} (mem : x ∈ xs) : ∃ y, f x = .ok y := by
  induction xs generalizing ys with
  | nil => cases mem
  | cons z xs ih =>
    rw [List.mapM_cons] at ok
    cases first : f z with
    | error e =>
      rw [first] at ok
      cases ok
    | ok y =>
      rcases List.mem_cons.mp mem with rfl | later
      · exact ⟨y, first⟩
      · cases rest : xs.mapM f with
        | error e =>
          rw [first, rest] at ok
          cases ok
        | ok zs => exact ih rest later

end

def Expr.literal? : Expr → Option Value
  | .literal v _ => some v
  | _ => none

/-- What a name is bound to: the value that is supplied for it, else a default that is a literal. -/
def Ledger.bound? (l : Ledger) (values : List (String × Value)) (name : String) : Option Value :=
  match values.lookup name with
  | some v => some v
  | none => (l.defaults.lookup name).bind Expr.literal?

namespace Statement

theorem valueOf_ok_iff {l : Ledger} {values : List (String × Value)} {name : String}
    {d : Descriptor} (default : d.default = l.defaults.lookup name) (v : Value) :
    valueOf values name d = .ok v ↔ l.bound? values name = some v := by
  unfold valueOf Ledger.bound?
  rw [← default]
  cases values.lookup name with
  | some supplied => simp
  | none =>
    cases d.default with
    | none => simp
    | some e => cases e <;> simp [Expr.literal?]

/-- The keys of the entries are the places of their names in a list. -/
structure Keyed (entries : List (String × Descriptor)) (keys : Descriptor → List Nat)
    (names : List String) (base : Nat) : Prop where
  distinct : (entries.map Prod.fst).Nodup
  mem_names : ∀ name, name ∈ names ↔ ∃ entry ∈ entries, entry.1 = name
  once : ∀ entry ∈ entries, (keys entry.2).Nodup
  place : ∀ entry ∈ entries, ∀ k, k ∈ keys entry.2 ↔ (entry.1, k) ∈ names.zipIdx base

section
variable {entries : List (String × Descriptor)} {keys : Descriptor → List Nat}
  {names : List String} {base : Nat} {s : Statement} {values : List (String × Value)}

theorem Keyed.perm (keyed : Keyed entries keys names base) {others : List (String × Descriptor)}
    (perm : others.Perm entries) : Keyed others keys names base where
  distinct := (perm.map Prod.fst).nodup_iff.mpr keyed.distinct
  mem_names name := by
    rw [keyed.mem_names]
    simp only [perm.mem_iff]
  once entry mem := keyed.once entry (perm.mem_iff.mp mem)
  place entry mem := keyed.place entry (perm.mem_iff.mp mem)

def keyedValues (entries : List (String × Descriptor)) (keys : Descriptor → List Nat)
    (value : String → Value) : List (Nat × Value) :=
  entries.flatMap fun entry => (keys entry.2).map fun key => (key, value entry.1)

theorem Keyed.nodup_keys (keyed : Keyed entries keys names base) :
    (entries.flatMap fun entry => keys entry.2).Nodup := by
  refine List.pairwise_flatMap.mpr ⟨fun entry mem => keyed.once entry mem, ?_⟩
  have different := keyed.distinct
  rw [List.Nodup, List.pairwise_map] at different
  refine different.imp_of_mem fun {a b} ha hb apart k hk j hj same => apart ?_
  subst same
  have first := List.mem_zipIdx_iff_le_and_getElem?_sub.mp ((keyed.place a ha k).mp hk)
  have second := List.mem_zipIdx_iff_le_and_getElem?_sub.mp ((keyed.place b hb k).mp hj)
  exact Option.some.inj (first.2.symm.trans second.2)

theorem Keyed.mem_keyedValues (keyed : Keyed entries keys names base) (value : String → Value)
    (x : Nat × Value) : x ∈ keyedValues entries keys value ↔
      x ∈ (names.zipIdx base).map fun place => (place.2, value place.1) := by
  simp only [keyedValues, List.mem_flatMap, List.mem_map]
  constructor
  · rintro ⟨entry, mem, k, hk, rfl⟩
    exact ⟨(entry.1, k), (keyed.place entry mem k).mp hk, rfl⟩
  · rintro ⟨⟨name, k⟩, place, rfl⟩
    obtain ⟨entry, mem, rfl⟩ := (keyed.mem_names name).mp (List.fst_mem_of_mem_zipIdx place)
    exact ⟨entry, mem, k, (keyed.place entry mem k).mpr place, rfl⟩

theorem Keyed.sorted (keyed : Keyed entries keys names base) (value : String → Value) :
    ((keyedValues entries keys value).mergeSort fun a b => a.1 ≤ b.1).map Prod.snd =
      names.map value := by
  have target : (keyedValues entries keys value).mergeSort (fun a b => a.1 ≤ b.1) =
      (names.zipIdx base).map fun x => (x.2, value x.1) := by
    refine mergeSort_eq_of_mem_iff ?_ ?_ (keyed.mem_keyedValues value)
    · rw [keyedValues, List.map_flatMap]
      simpa only [List.map_map, Function.comp_def, List.map_id_fun', id_eq] using keyed.nodup_keys
    · rw [List.map_map]
      have order := List.pairwise_lt_range' (s := base) (n := names.length) 1
      rw [← List.zipIdx_map_snd] at order
      exact order
  rw [target, List.map_map]
  have first := congrArg (List.map value) (List.zipIdx_map_fst base names)
  rw [List.map_map] at first
  exact first

def entryValues (values : List (String × Value)) (keys : Descriptor → List Nat)
    (entry : String × Descriptor) : Except StatementError (List (Nat × Value)) :=
  (fun v => (keys entry.2).map fun key => (key, v)) <$> valueOf values entry.1 entry.2

theorem valuesBy_eq (s : Statement) (values : List (String × Value))
    (keys : Descriptor → List Nat) : s.valuesBy values keys =
      (fun places : List (List (Nat × Value)) =>
        (places.flatten.mergeSort fun a b => a.1 ≤ b.1).map Prod.snd) <$>
          s.parameters.mapM (entryValues values keys) := by
  simp only [valuesBy, bind_pure_comp]
  rfl

theorem valuesBy_ok {value : String → Value}
    (each : ∀ entry ∈ s.parameters, valueOf values entry.1 entry.2 = .ok (value entry.1)) :
    s.valuesBy values keys =
      .ok (((keyedValues s.parameters keys value).mergeSort fun a b => a.1 ≤ b.1).map Prod.snd) := by
  have places : ∀ entry ∈ s.parameters, entryValues values keys entry =
      .ok ((keys entry.2).map fun key => (key, value entry.1)) := by
    intro entry mem
    rw [entryValues, each entry mem]
    rfl
  rw [valuesBy_eq, mapM_ok places, keyedValues, List.flatMap_def]
  rfl

theorem valueOf_of_valuesBy {vs : List Value} (ok : s.valuesBy values keys = .ok vs)
    {entry : String × Descriptor} (mem : entry ∈ s.parameters) :
    ∃ v, valueOf values entry.1 entry.2 = .ok v := by
  rw [valuesBy_eq] at ok
  cases collected : s.parameters.mapM (entryValues values keys) with
  | error e =>
    rw [collected] at ok
    cases ok
  | ok places =>
    obtain ⟨place, held⟩ := ok_of_mapM_ok collected mem
    cases value : valueOf values entry.1 entry.2 with
    | error e =>
      rw [entryValues, value] at held
      cases held
    | ok v => exact ⟨v, rfl⟩

/-- Values are found if every name is bound, and they stand in the order of the names. -/
theorem Keyed.valuesBy (keyed : Keyed s.parameters keys names base) {bound : String → Option Value}
    (bound_iff : ∀ entry ∈ s.parameters, ∀ v,
      valueOf values entry.1 entry.2 = .ok v ↔ bound entry.1 = some v) :
    ((∃ vs, s.valuesBy values keys = .ok vs) ↔ ∀ name ∈ names, ∃ v, bound name = some v) ∧
      ∀ vs, s.valuesBy values keys = .ok vs → names.map bound = vs.map some := by
  have all_bound : ∀ vs, s.valuesBy values keys = .ok vs →
      ∀ name ∈ names, ∃ v, bound name = some v := by
    intro vs ok name mem
    obtain ⟨entry, held, rfl⟩ := (keyed.mem_names name).mp mem
    obtain ⟨v, value⟩ := valueOf_of_valuesBy ok held
    exact ⟨v, (bound_iff entry held v).mp value⟩
  have found : (∀ name ∈ names, ∃ v, bound name = some v) →
      s.valuesBy values keys = .ok (names.map fun name => (bound name).getD .null) := by
    intro all
    rw [← keyed.sorted]
    refine valuesBy_ok fun entry held => (bound_iff entry held _).mpr ?_
    obtain ⟨v, is⟩ := all entry.1 ((keyed.mem_names entry.1).mpr ⟨entry, held, rfl⟩)
    rw [is, Option.getD_some]
  refine ⟨⟨?_, ?_⟩, ?_⟩
  · rintro ⟨vs, ok⟩
    exact all_bound vs ok
  · intro all
    exact ⟨_, found all⟩
  · intro vs ok
    have all := all_bound vs ok
    cases ok.symm.trans (found all)
    rw [List.map_map]
    refine List.map_congr_left fun name mem => ?_
    obtain ⟨v, is⟩ := all name mem
    simp [is]

end

end Statement

namespace Parameters
variable {p : Parameters} {occurred : List String}

theorem Records.map_fst (records : p.Records (Expr.firsts occurred) occurred) :
    p.entries.map Prod.fst = Expr.firsts occurred := by
  rw [← records.names, written, List.map_map]
  rfl

theorem Records.map_ordinal (records : p.Records (Expr.firsts occurred) occurred) :
    p.entries.map (fun entry => entry.2.ordinal) = List.range' 1 p.entries.length := by
  have ordinals := records.ordinals
  rw [length_written, written, List.map_map] at ordinals
  exact ordinals

theorem Records.mem_occurred (records : p.Records (Expr.firsts occurred) occurred)
    (name : String) : name ∈ occurred ↔ ∃ entry ∈ p.entries, entry.1 = name :=
  Expr.mem_firsts.symm.trans records.mem_iff

theorem Records.distinct (records : p.Records (Expr.firsts occurred) occurred) :
    (p.entries.map Prod.fst).Nodup := by
  rw [records.map_fst]
  exact Expr.nodup_firsts occurred

theorem Records.positional (records : p.Records (Expr.firsts occurred) occurred) :
    Statement.Keyed p.entries Descriptor.positions occurred 0 where
  distinct := records.distinct
  mem_names := records.mem_occurred
  once entry mem := by
    rw [records.positions entry mem]
    exact nodup_places occurred entry.1
  place entry mem k := by
    rw [records.positions entry mem, mem_places, List.mem_zipIdx_iff_getElem?]

theorem Records.numbered (records : p.Records (Expr.firsts occurred) occurred) :
    (Expr.firsts occurred).zipIdx 1 = p.entries.map fun entry => (entry.1, entry.2.ordinal) := by
  have length : (p.written.map (·.1)).length = p.written.length := List.length_map _
  calc (Expr.firsts occurred).zipIdx 1
      = (p.written.map (·.1)).zip (List.range' 1 p.written.length) := by
        rw [← records.names, List.zipIdx_eq_zip_range', length]
    _ = p.written.map fun entry => (entry.1, entry.2.2) := by
        rw [← records.ordinals, List.zip_map']
    _ = p.entries.map fun entry => (entry.1, entry.2.ordinal) := by
        rw [written, List.map_map]
        rfl

theorem Records.ordinal (records : p.Records (Expr.firsts occurred) occurred) :
    Statement.Keyed p.entries (fun d => [d.ordinal]) (Expr.firsts occurred) 1 where
  distinct := records.distinct
  mem_names name := records.mem_iff
  once _ _ := List.pairwise_singleton _ _
  place entry mem k := by
    rw [records.numbered, List.mem_singleton, List.mem_map]
    constructor
    · intro same
      exact ⟨entry, mem, by rw [same]⟩
    · rintro ⟨other, held, same⟩
      obtain ⟨name, rfl⟩ := Prod.mk.inj same
      rw [eq_of_key_eq records.distinct held mem name]

end Parameters

/-- Placeholders are told apart by the names that parameters are written with or by their
ordinals. -/
theorem Dialect.placeholder_inj {d : Dialect} (named : d ≠ .mysql) {n m : String}
    {i j : PlaceholderPosition} (same : d.placeholder n i = d.placeholder m j) :
    n = m ∨ i.ordinal = j.ordinal := by
  cases d with
  | mysql => exact absurd rfl named
  | postgresql => exact .inr (Naming.toString_injective (String.append_right_inj _ |>.mp same))
  | generic | sqlite | mssql => exact .inl (String.append_right_inj _ |>.mp same)

/-- Two placeholders are the same if and only if they are of the same name. -/
theorem Parameters.Recorded.token_eq_iff {p : Parameters} {d : Dialect}
    {handed : List (String × String)} {table : List (String × Expr)}
    (recorded : p.Recorded d handed table) (named : d ≠ .mysql) {a b : String × String}
    (ha : a ∈ handed) (hb : b ∈ handed) : a.2 = b.2 ↔ a.1 = b.1 := by
  obtain ⟨n, o, i, first, token⟩ := recorded.written a ha
  obtain ⟨m, u, j, second, other⟩ := recorded.written b hb
  have names : (p.written.map (·.1)).Nodup := by
    rw [recorded.records.names]
    exact Expr.nodup_firsts _
  have ordinals : (p.written.map (·.2.2)).Nodup := by
    rw [recorded.records.ordinals]
    exact List.nodup_range'
  rw [token, other]
  constructor
  · intro same
    rcases Dialect.placeholder_inj named same with written | ordinal
    · exact (Prod.mk.inj (eq_of_key_eq recorded.records.normalized first second written)).1
    · exact (Prod.mk.inj (eq_of_key_eq ordinals first second ordinal)).1
  · intro same
    have entry := eq_of_key_eq names first second same
    obtain ⟨_, rest⟩ := Prod.mk.inj entry
    obtain ⟨rfl, rfl⟩ := Prod.mk.inj rest
    cases d <;> rfl

namespace Context

/-- In every session the parameters are the distinct ones of the placeholders that were handed out,
with their places, the placeholders are told apart, and a finished statement binds each of them to
the value of its name. -/
theorem binds_placeholders (c : Context) (fresh : c.parameters = {}) (steps : List Step)
    (atomic : ∀ s ∈ steps, s.isAtomic = true) :
    let l := c.ledger {} steps
    let p := (c.runAll steps).2.parameters
    (p.entries.map Prod.fst = Expr.firsts l.names ∧
      p.entries.map (fun entry => entry.2.ordinal) = List.range' 1 p.entries.length ∧
      (∀ entry ∈ p.entries, entry.2.positions = places l.names entry.1) ∧
      p.occurrences = l.names.length ∧ p.normalizedNames.Nodup) ∧
    Stand l.tokens l.text ∧
    (c.writer.dialect ≠ .mysql → ∀ a ∈ l.handed, ∀ b ∈ l.handed, a.2 = b.2 ↔ a.1 = b.1) ∧
    ∀ sql values,
      let statement := (c.runAll steps).2.finish sql
      (((∃ vs, statement.positionalValues values = .ok vs) ↔
          ∀ name ∈ l.names, ∃ v, l.bound? values name = some v) ∧
        ∀ vs, statement.positionalValues values = .ok vs →
          l.names.map (l.bound? values) = vs.map some) ∧
      ((∃ vs, statement.ordinalValues values = .ok vs) ↔
          ∀ name ∈ l.names, ∃ v, l.bound? values name = some v) ∧
        ∀ vs, statement.ordinalValues values = .ok vs →
          (Expr.firsts l.names).map (l.bound? values) = vs.map some := by
  intro l p
  have start : Ledger.Holds {} c := by
    refine ⟨?_, trivial⟩
    rw [fresh]
    exact Parameters.recorded_empty _
  have holds : l.Holds (c.runAll steps).2 := holds_runAll start atomic
  have recorded := holds.recorded
  rw [writer_runAll] at recorded
  have records := recorded.records
  refine ⟨⟨records.map_fst, records.map_ordinal, records.positions, records.occurrences, ?_⟩,
    holds.stand, ?_, ?_⟩
  · rw [Parameters.normalizedNames_eq]
    exact records.normalized
  · intro named a ha b hb
    exact recorded.token_eq_iff named ha hb
  · intro sql values statement
    have perm : statement.parameters.Perm p.entries := List.mergeSort_perm _ _
    have bound_iff : ∀ entry ∈ statement.parameters, ∀ v,
        Statement.valueOf values entry.1 entry.2 = .ok v ↔ l.bound? values entry.1 = some v := by
      intro entry mem v
      exact Statement.valueOf_ok_iff (recorded.defaults entry (perm.mem_iff.mp mem)) v
    refine ⟨(records.positional.perm perm).valuesBy bound_iff, ?_⟩
    have ordinal := (records.ordinal.perm perm).valuesBy bound_iff
    simp only [Expr.mem_firsts] at ordinal
    exact ordinal

def peopleContext : Context :=
  { writer := { dialect := .postgresql }
    resolver := .new
      (.ofNamespace ⟨"shop", [⟨"people", false, [⟨"age", .integer, false, false, none⟩], []⟩]⟩)
      (.table (some "shop") "people")
    grammar := ⟨Operators.standard, ⟨⟨2024, 1, 1⟩, 0, 0⟩⟩ }

/-- Steps of which one fails after a parameter has occurred. Of the parameters that are left one
occurs twice, and the other has a default. -/
def rangeSteps : List Step :=
  [.parameter "x", .reset, .parameter "low",
    .render (.binary .lt (.parameter "high") (.column ["size"]) .boolean),
    .render (.binary .between (.column ["age"])
      (.binary .and (.parameter "low") (.parameter "top") .undefined) .boolean),
    .setDefault "top" (.literal (.text "z") .string)]

/-- The parameter that occurs twice is bound twice. -/
theorem binds_placeholders_of_range :
    (∀ s ∈ rangeSteps, s.isAtomic = true) ∧
      (peopleContext.ledger {} rangeSteps).handed =
        [("low", "$1"), ("low", "$1"), ("top", "$2")] ∧
      ∃ vs, ((peopleContext.runAll rangeSteps).2.finish "").positionalValues
          [("low", .boolean true)] = .ok vs ∧
        vs.map some = [some (.boolean true), some (.boolean true), some (.text "z")] := by
  have atomic : ∀ s ∈ rangeSteps, s.isAtomic = true := by decide
  have handed : (peopleContext.ledger {} rangeSteps).handed =
      [("low", "$1"), ("low", "$1"), ("top", "$2")] := by decide
  have low : (peopleContext.ledger {} rangeSteps).bound? [("low", .boolean true)] "low" =
      some (.boolean true) := by decide
  have top : (peopleContext.ledger {} rangeSteps).bound? [("low", .boolean true)] "top" =
      some (.text "z") := by decide
  have names : (peopleContext.ledger {} rangeSteps).names = ["low", "low", "top"] :=
    congrArg (List.map Prod.fst) handed
  obtain ⟨succeeds, values⟩ := ((binds_placeholders peopleContext rfl rangeSteps atomic).2.2.2 ""
    [("low", .boolean true)]).1
  rw [names] at succeeds values
  obtain ⟨vs, found⟩ := succeeds.mpr (by simp [low, top])
  have bound := values vs found
  simp only [List.map_cons, List.map_nil, low, top] at bound
  exact ⟨atomic, handed, vs, found, bound.symm⟩

end Context

end SqlFragment
