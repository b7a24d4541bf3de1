import SqlFragment.Proofs.Expr.Comments
import SqlFragment.Proofs.Resolver.Spelling
import SqlFragment.Proofs.Statement.Invariant
import SqlFragment.Proofs.Statement.Registry
import SqlFragment.Proofs.Statement.Rendering

/-
Expressions open no comments, neither as they are displayed nor as they are rendered. What a session
adds to the text has no hyphens: placeholders are made of valid names, and of the names of the schema
only those are written that the expression itself spells out.
-/
namespace SqlFragment
open Text

namespace Parameters

def Hyphenless (p : Parameters) : Prop := ∀ name ∈ p.normalizedNames, '-' ∉ name.toList

theorem isParameterName_of_nameFor {p : Parameters} {d : Dialect} {name normalized : String}
    (named : p.nameFor d name = .ok normalized) : d.isParameterName normalized = true := by
  unfold nameFor at named
  dsimp only at named
  split at named
  · rename_i free
    cases named
    exact (Bool.and_eq_true_iff.mp free).1
  · unfold Dialect.normalizeName at named
    dsimp only at named
    split at named
    · cases named
      assumption
    · cases named

theorem mem_normalizedNames_note {p : Parameters} {name normalized other : String}
    (mem : other ∈ (p.note name normalized).normalizedNames) :
    other ∈ p.normalizedNames ∨ other = normalized := by
  rw [normalizedNames_eq, written_note, ← normalizedNames_eq] at mem
  unfold enter at mem
  split at mem
  · exact .inl mem
  · simpa [normalizedNames] using mem

section
variable {p q : Parameters} {d : Dialect} {name token : String}

theorem Hyphenless.occur (plain : p.Hyphenless) (occurs : p.occur d name = .ok (token, q)) :
    '-' ∉ token.toList ∧ q.Hyphenless := by
  obtain ⟨normalized, named, _⟩ := p.nameFor_spec d name
  cases occurs.symm.trans (occur_eq named)
  have recorded : (p.note name normalized).Hyphenless := by
    intro other mem
    rcases mem_normalizedNames_note mem with known | rfl
    · exact plain other known
    · exact Dialect.not_mem_of_isParameterName (isParameterName_of_nameFor named)
  have held : (p.enter name normalized).1.normalizedName ∈
      (p.note name normalized).normalizedNames := by
    rw [normalizedNames_eq]
    exact List.mem_map_of_mem (p.mem_written_note name normalized)
  exact ⟨d.not_mem_placeholder (recorded _ held) _, recorded⟩

theorem Hyphenless.setDefault (plain : p.Hyphenless) {e : Expr}
    (sets : p.setDefault? name e = some q) : q.Hyphenless := by
  obtain ⟨descriptor, _, rfl⟩ := Option.map_eq_some_iff.mp sets
  unfold Hyphenless
  rw [normalizedNames_eq, written_setDefault, ← normalizedNames_eq]
  exact plain

end

end Parameters

def Expr.Leaf.Hyphenless (l : Leaf) : Prop := ∃ x : Expr, x.leaf? = some l ∧ x.Hyphenless

theorem Expr.All.leaves {e : Expr} (plain : e.All Hyphenless) : ∀ l ∈ e.leaves, l.Hyphenless := by
  intro l mem
  obtain ⟨x, inside, leaf⟩ := List.mem_filterMap.mp mem
  exact ⟨x, leaf, plain x inside⟩

namespace Context

/-- Literals are written by the dialect alone, placeholders without hyphens, and full paths lead to
the elements that they spell. -/
structure Tidy (c : Context) : Prop where
  bare : c.writer.escaper = none
  names : c.parameters.Hyphenless
  spelled : c.resolver.Each fun _ s => s.Spelled

theorem kept_tidy : Kept Tidy where
  look tidy looked :=
    { bare := looked.writer ▸ tidy.bare
      names := looked.parameters ▸ tidy.names
      spelled := tidy.spelled.grows Resolver.kept_spelled looked.resolver }
  occur tidy occurs := { tidy with names := (tidy.names.occur occurs).2 }
  setDefault tidy sets := { tidy with names := tidy.names.setDefault sets }
  reset tidy := { tidy with names := nofun }
  move tidy m := { tidy with spelled := tidy.spelled.move Resolver.kept_spelled m }

section
variable {c after : Context} {path : Path} {text : String}

theorem exec_find_bind_ok {α : Type} {kind : ElementKind} {k : Element → Action α} {x : α}
    (run : exec (find kind path >>= k) c = (.ok x, after)) :
    ∃ e, (c.resolver.find kind path).1 = .ok e ∧
      exec (k e) { c with resolver := (c.resolver.find kind path).2 } = (.ok x, after) := by
  rw [exec_bind, exec_find] at run
  cases found : (c.resolver.find kind path).1 with
  | error e =>
    rw [found] at run
    cases run
  | ok e =>
    rw [found] at run
    exact ⟨e, rfl, run⟩

/-- A path that is looked up is written as it stands, or as what it leads to if it spells that. -/
theorem not_mem_looked_up (tidy : c.Tidy) (plain : ∀ segment ∈ path, '-' ∉ segment.toList)
    {kind : ElementKind} {segments : Nat}
    (full : path.length = segments → (kind.spelled? path).isSome = true)
    (run : exec (find kind path >>= fun e =>
      if path.length = segments then return c.writer.dialect.escapePath e.path
      else return c.writer.dialect.escapePath path) c = (.ok text, after)) : '-' ∉ text.toList := by
  obtain ⟨e, found, written⟩ := exec_find_bind_ok run
  split at written
  · rename_i length
    cases written
    obtain ⟨x, spells⟩ := Option.isSome_iff_exists.mp (full length)
    cases Resolver.find_spelled (tidy.spelled _ List.mem_cons_self) spells found
    exact c.writer.dialect.not_mem_escapePath fun segment mem =>
      plain segment (ElementKind.path_subset_of_spelled? spells mem)
  · cases written
    exact c.writer.dialect.not_mem_escapePath plain

theorem not_mem_renderColumn (tidy : c.Tidy) (plain : ∀ segment ∈ path, '-' ∉ segment.toList)
    (run : exec (renderColumn path) c = (.ok text, after)) : '-' ∉ text.toList := by
  have itself := c.writer.dialect.not_mem_escapePath plain
  rw [renderColumn, exec_get_bind] at run
  dsimp only at run
  split at run
  · split at run <;> cases run
    exact itself
  · cases run
    exact itself
  · exact not_mem_looked_up tidy plain ElementKind.spelled?_column run

theorem not_mem_renderTable (tidy : c.Tidy) (plain : ∀ segment ∈ path, '-' ∉ segment.toList)
    (run : exec (renderTable path) c = (.ok text, after)) : '-' ∉ text.toList := by
  rw [renderTable, exec_get_bind] at run
  dsimp only at run
  split at run
  · cases run
    exact c.writer.dialect.not_mem_escapePath plain
  · exact not_mem_looked_up tidy plain ElementKind.spelled?_table run

theorem commentFree_writeLeaf (tidy : c.Tidy) {l : Expr.Leaf} (plain : l.Hyphenless)
    (run : exec (writeLeaf l) c = (.ok text, after)) : CommentFree text := by
  obtain ⟨x, leaf, plain⟩ := plain
  cases x with
  | literal v t =>
    cases leaf
    rw [writeLeaf, literal, exec_get_bind] at run
    cases written : c.writer.literal v t with
    | error e =>
      rw [written] at run
      cases run
    | ok s =>
      rw [written] at run
      cases run
      exact (Writer.hyphensLead_literal tidy.bare plain written).commentFree
  | parameter name =>
    cases leaf
    obtain ⟨token, parameters, occurs, written⟩ := exec_parameter name c
    cases run.symm.trans written
    exact commentFree_of_not_mem (tidy.names.occur occurs).1
  | column path =>
    cases leaf
    exact commentFree_of_not_mem (not_mem_renderColumn tidy plain run)
  | table path =>
    cases leaf
    exact commentFree_of_not_mem (not_mem_renderTable tidy plain run)
  | raw _ _ | function _ _ | list _ _ | parenthesis _ | unary _ _ _ | binary _ _ _ _ | case _ _ _ =>
    cases leaf

theorem commentFree_writeLeaves (tidy : c.Tidy) {ls : List Expr.Leaf}
    (plain : ∀ l ∈ ls, l.Hyphenless) {texts : List String}
    (run : exec (ls.mapM writeLeaf) c = (.ok texts, after)) : ∀ text ∈ texts, CommentFree text := by
  induction ls generalizing c texts with
  | nil =>
    cases run
    simp
  | cons l ls ih =>
    obtain ⟨first, others⟩ := List.forall_mem_cons.mp plain
    -- the other leaves are written in the context that the first one leaves behind
    obtain ⟨text, rest, middle, rfl, written, run⟩ := exec_mapM_cons_ok run
    have later := kept_tidy.writeLeaf tidy l
    rw [written] at later
    exact List.forall_mem_cons.mpr ⟨commentFree_writeLeaf tidy first written, ih later others run⟩

theorem commentFree_renderKeeping (tidy : c.Tidy) {e : Expr} (plain : e.All Expr.Hyphenless)
    (run : exec (renderKeeping e) c = (.ok text, after)) : CommentFree text := by
  rw [renderKeeping_eq, exec_map] at run
  cases written : exec (e.leaves.mapM writeLeaf) c with
  | mk result last =>
    rw [written] at run
    cases result with
    | error error => cases run
    | ok texts =>
      cases run
      exact Expr.commentFree_refill plain.tame (commentFree_writeLeaves tidy plain.leaves written)

theorem renderKeeping_of_render {e : Expr} (run : (exec (render e) c).1 = .ok text) :
    (exec (renderKeeping e) c).1 = .ok text := by
  rw [exec_render] at run
  rw [renderKeeping_eq, exec_map]
  generalize exec (e.leaves.mapM writeLeaf) c = x at run
  obtain ⟨result, last⟩ := x
  cases result with
  | error error => cases run
  | ok texts => exact run

end

/-- An expression in which nothing has a hyphen but numbers, timestamps and operators opens no
comment. This holds of the text of the expression and, in all states of a session, of what it is
rendered as in each of the dialects. -/
theorem no_comment_opens {e : Expr} (plain : e.All Expr.Hyphenless) :
    CommentFree e.display ∧
    ∀ (start : Context) (schema : Schema) (pivot : Element), start.resolver = .new schema pivot →
      start.parameters = {} → start.writer.escaper = none → ∀ (steps : List Step) (text : String),
      (((start.runAll steps).2.run (render e)).1 = .ok text → CommentFree text) ∧
      (((start.runAll steps).2.run (renderKeeping e)).1 = .ok text → CommentFree text) := by
  refine ⟨Expr.commentFree_display plain.tame, ?_⟩
  intro start schema pivot fresh empty bare steps text
  have tidy : start.Tidy :=
    { bare
      names := by
        rw [empty]
        nofun
      spelled := by
        rw [fresh]
        exact Resolver.each_new Resolver.kept_spelled schema pivot }
  have after := kept_tidy.runAll tidy steps
  rw [run_eq_exec, run_eq_exec]
  have keeping (run : (exec (renderKeeping e) (start.runAll steps).2).1 = .ok text) :
      CommentFree text := commentFree_renderKeeping after plain (Prod.ext run rfl)
  exact ⟨fun run => keeping (renderKeeping_of_render run), keeping⟩

/-- A context at a column that has hyphens in its name. -/
def hyphenContext : Context :=
  { writer := { dialect := .mssql }
    resolver := .new (.ofDatasource ⟨"main", [⟨"shop",
      [⟨"orders", false, [⟨"id", .integer, false, false, none⟩,
        ⟨"a--b", .integer, false, false, none⟩], []⟩]⟩]⟩) (.column (some "shop") "orders" "a--b")
    grammar := ⟨Operators.standard, ⟨⟨2024, 1, 1⟩, 0, 0⟩⟩ }

def hyphenated : Context :=
  (hyphenContext.runAll [.parameter "p--q", .render (.column ["a--b"])]).2

/-- Signs before signs, before a negative number and before the text of a date in a negative year. -/
def signs : Expr :=
  .binary .minus (.unary .minus (.unary .minus (.value (.integer (-5))) .undefined) .undefined)
    (.unary .minus (.binary .minus (.literal (.timestamp ⟨-62198755200, 0, -3600⟩) .string)
      (.binary .minus (.parameter "p") (.column ["main", "shop", "orders", "id"]) .undefined)
      .undefined) .undefined) .undefined

theorem no_comment_opens_after_signs :
    let text := "-(-(-5)) - -(N'-0002-12-31T23:00:00-01:00' - (@p - [shop].[orders].[id]))"
    signs.All Expr.Hyphenless ∧ CommentFree signs.display ∧
      (hyphenated.run (render signs)).1 = .ok text ∧ CommentFree text := by
  intro text
  have plain : signs.All Expr.Hyphenless := by decide
  obtain ⟨displayed, rendered⟩ := no_comment_opens plain
  have run : (hyphenated.run (render signs)).1 = .ok text := by rfl
  exact ⟨plain, displayed, run, (rendered hyphenContext _ _ rfl rfl rfl _ text).1 run⟩

end Context

end SqlFragment
