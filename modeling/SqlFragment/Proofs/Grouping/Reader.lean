import SqlFragment.Proofs.Grouping.Tokens

/-
Reading tokens by the strength of operators: an operand goes to the stronger operator beside it, and
to the left one of two that are equally strong. Parentheses stay in the tree.
-/
namespace SqlFragment.Grouping

/-- What may follow an operand and make a larger one of it. -/
inductive Link where
  | unary (op : UnaryOperator)
  | binary (op : BinaryOperator)

def Link.precedence : Link → Nat
  | .unary op => op.precedence
  | .binary op => op.precedence

def single? (token : String) : Option BinaryOperator :=
  [.eq, .notEq, .lt, .ltEq, .gt, .gtEq, .like, .isIn, .between, .and, .or, .xor, .plus, .minus,
    .multiply, .divide, .modulo, .stringConcat, .bitwiseAnd, .bitwiseOr, .bitwiseXor, .shiftLeft,
    .shiftRight].find? fun op : BinaryOperator => op.spelling = token

def linkAfterIs : List String → Link × List String
  | "NOT" :: "NULL" :: ts => (.unary .isNotNull, ts)
  | "NULL" :: ts => (.unary .isNull, ts)
  | "NOT" :: ts => (.binary .isNot, ts)
  | ts => (.binary .is, ts)

def link? : List String → Option (Link × List String)
  | "IS" :: ts => some (linkAfterIs ts)
  | "NOT" :: "LIKE" :: ts => some (.binary .notLike, ts)
  | "NOT" :: "IN" :: ts => some (.binary .notIn, ts)
  | t :: ts => (single? t).map fun op => (.binary op, ts)
  | [] => none

def before? (token : String) : Option UnaryOperator :=
  [UnaryOperator.not, .minus, .plus, .bitwiseNot, .existence].find? fun op => op.spelling = token

def operandStrength : UnaryOperator → Nat
  | .existence => 12
  | op => op.precedence

def leaf (word : String) : Expr :=
  match word.toList with
  | ':' :: name => .parameter (String.ofList name)
  | _ => Expr.ofPath (Path.parse word)

def after? (token : String) : List String → Option (List String)
  | t :: ts => if t = token then some ts else none
  | [] => none

mutual

/-- An operand with the operators before it. -/
def readOperand : Nat → List String → Option (Expr × List String)
  | 0, _ => none
  | _, [] => none
  | n + 1, t :: ts =>
    match before? t with
    | some op => (readFrom n (operandStrength op) ts).map fun (e, ts) => (Expr.apply op e, ts)
    | none =>
      if t = "(" then
        (readFrom n 1 ts).bind fun (e, ts) => (after? ")" ts).map fun ts => (.parenthesis e, ts)
      else if t = "CASE" then readCase n ts
      else if ts.head? = some "(" then
        (readArguments n ts.tail).map fun (args, ts) => (.function t args, ts)
      else some (leaf t, ts)

/-- An expression in which no operator is weaker than `least`. -/
def readFrom : Nat → Nat → List String → Option (Expr × List String)
  | 0, _, _ => none
  | n + 1, least, ts => (readOperand n ts).bind fun (e, ts) => readOn n least e ts

/-- Goes on after an operand, as long as the operators are strong enough. -/
def readOn : Nat → Nat → Expr → List String → Option (Expr × List String)
  | 0, _, _, _ => none
  | n + 1, least, left, ts =>
    match link? ts with
    | none => some (left, ts)
    | some (link, rest) =>
      if link.precedence < least then some (left, ts)
      else
        match link with
        | .unary op => readOn n least (Expr.apply op left) rest
        | .binary .between =>
          (readFrom n 6 rest).bind fun (low, rest) =>
            (after? "AND" rest).bind fun rest =>
              (readFrom n 6 rest).bind fun (high, rest) =>
                readOn n least (Expr.between left low high) rest
        | .binary op =>
          (readFrom n (op.precedence + 1) rest).bind fun (right, rest) =>
            readOn n least (Expr.combine op left right) rest

def readArguments : Nat → List String → Option (List Expr × List String)
  | 0, _ => none
  | n + 1, ts => if ts.head? = some ")" then some ([], ts.tail) else readItems n ts

def readItems : Nat → List String → Option (List Expr × List String)
  | 0, _ => none
  | n + 1, ts =>
    (readFrom n 1 ts).bind fun (e, ts) =>
      if ts.head? = some "," then (readItems n ts.tail).map fun (es, ts) => (e :: es, ts)
      else (after? ")" ts).map fun ts => ([e], ts)

def readCase : Nat → List String → Option (Expr × List String)
  | 0, _ => none
  | n + 1, ts =>
    (readSubject n ts).bind fun (s, ts) =>
      (readArms n ts).bind fun (arms, ts) =>
        (readOtherwise n ts).bind fun (o, ts) =>
          (after? "END" ts).map fun ts => (.case s arms o, ts)

def readSubject : Nat → List String → Option (Option Expr × List String)
  | 0, _ => none
  | n + 1, ts =>
    if ts.head? = some "WHEN" ∨ ts.head? = some "ELSE" ∨ ts.head? = some "END" then some (none, ts)
    else (readFrom n 1 ts).map fun (e, ts) => (some e, ts)

def readArms : Nat → List String → Option (List (Expr × Expr) × List String)
  | 0, _ => none
  | n + 1, ts =>
    if ts.head? = some "WHEN" then
      (readFrom n 1 ts.tail).bind fun (w, ts) =>
        (after? "THEN" ts).bind fun ts =>
          (readFrom n 1 ts).bind fun (t, ts) =>
            (readArms n ts).map fun (arms, ts) => ((w, t) :: arms, ts)
    else some ([], ts)

def readOtherwise : Nat → List String → Option (Option Expr × List String)
  | 0, _ => none
  | n + 1, ts =>
    if ts.head? = some "ELSE" then (readFrom n 1 ts.tail).map fun (e, ts) => (some e, ts)
    else some (none, ts)

end

/-- Holds of a result that is reached with all but finitely many bounds on the depth. -/
def Eventually {α : Type} (read : Nat → Option α) (a : α) : Prop := ∃ n, ∀ m, n ≤ m → read m = some a

namespace Eventually
variable {α β : Type} {f : Nat → Option α} {a b : α}

theorem unique (first : Eventually f a) (second : Eventually f b) : a = b := by
  obtain ⟨n, hn⟩ := first
  obtain ⟨m, hm⟩ := second
  have same := (hn (max n m) (Nat.le_max_left n m)).symm.trans (hm (max n m) (Nat.le_max_right n m))
  exact Option.some.inj same

theorem const (a : α) : Eventually (fun _ => some a) a := ⟨0, fun _ _ => rfl⟩

theorem of_succ (later : Eventually (fun n => f (n + 1)) a) : Eventually f a := by
  obtain ⟨n, hn⟩ := later
  refine ⟨n + 1, ?_⟩
  intro m hm
  cases m with
  | zero => omega
  | succ m => exact hn m (by omega)

theorem bind {g : Nat → α → Option β} {b : β} (first : Eventually f a)
    (second : Eventually (fun n => g n a) b) : Eventually (fun n => (f n).bind (g n)) b := by
  obtain ⟨n, hn⟩ := first
  obtain ⟨m, hm⟩ := second
  refine ⟨max n m, ?_⟩
  intro k hk
  simp only [hn k (by omega), Option.bind_some, hm k (by omega)]

theorem map {g : α → β} (first : Eventually f a) : Eventually (fun n => (f n).map g) (g a) := by
  obtain ⟨n, hn⟩ := first
  refine ⟨n, ?_⟩
  intro m hm
  simp only [hn m hm, Option.map_some]

end Eventually

def ReadsOperand (ts : List String) (e : Expr) (rest : List String) : Prop :=
  Eventually (fun n => readOperand n ts) (e, rest)

def Reads (least : Nat) (ts : List String) (e : Expr) (rest : List String) : Prop :=
  Eventually (fun n => readFrom n least ts) (e, rest)

def Continues (least : Nat) (left : Expr) (ts : List String) (e : Expr) (rest : List String) : Prop :=
  Eventually (fun n => readOn n least left ts) (e, rest)

/-- The strength of the operator that comes next; zero when there is none. -/
def following (ts : List String) : Nat :=
  match link? ts with
  | some (link, _) => link.precedence
  | none => 0

section
variable {least : Nat} {ts rest last : List String} {e left low high right : Expr} {t : String}

theorem Reads.of_operand (first : ReadsOperand ts left rest)
    (more : Continues least left rest e last) : Reads least ts e last := by
  refine Eventually.of_succ ?_
  simp only [readFrom]
  exact first.bind more

theorem Continues.stop (weak : following ts < least) : Continues least e ts e ts := by
  refine Eventually.of_succ ?_
  simp only [following] at weak
  simp only [readOn]
  cases link : link? ts with
  | none => exact .const (e, ts)
  | some next =>
    simp only [link] at weak
    simp only [weak, ↓reduceIte]
    exact .const (e, ts)

theorem Continues.unary {op : UnaryOperator} (link : link? ts = some (.unary op, rest))
    (strong : least ≤ op.precedence) (more : Continues least (Expr.apply op left) rest e last) :
    Continues least left ts e last := by
  refine Eventually.of_succ ?_
  simp only [readOn, link, Link.precedence, Nat.not_lt.mpr strong, ↓reduceIte]
  exact more

theorem Continues.binary {op : BinaryOperator} {next : List String} (other : op ≠ .between)
    (link : link? ts = some (.binary op, next)) (strong : least ≤ op.precedence)
    (operand : Reads (op.precedence + 1) next right rest)
    (more : Continues least (Expr.combine op left right) rest e last) :
    Continues least left ts e last := by
  refine Eventually.of_succ ?_
  simp only [readOn, link, Link.precedence, Nat.not_lt.mpr strong, ↓reduceIte]
  cases op <;> exact operand.bind more

theorem Continues.range {next between : List String} (link : link? ts = some (.binary .between, next))
    (strong : least ≤ 5) (lower : Reads 6 next low ("AND" :: between))
    (upper : Reads 6 between high rest)
    (more : Continues least (Expr.between left low high) rest e last) :
    Continues least left ts e last := by
  refine Eventually.of_succ ?_
  have strong : ¬BinaryOperator.between.precedence < least := Nat.not_lt.mpr strong
  simp only [readOn, link, Link.precedence, strong, ↓reduceIte]
  exact lower.bind ((Eventually.const between).bind (upper.bind more))

theorem ReadsOperand.before {op : UnaryOperator} (operator : before? t = some op)
    (operand : Reads (operandStrength op) ts e rest) :
    ReadsOperand (t :: ts) (Expr.apply op e) rest := by
  refine Eventually.of_succ ?_
  simp only [readOperand, operator]
  exact operand.map

theorem ReadsOperand.parenthesis (inner : Reads 1 ts e (")" :: rest)) :
    ReadsOperand ("(" :: ts) (.parenthesis e) rest := by
  have mark : before? "(" = none := by decide
  refine Eventually.of_succ ?_
  simp only [readOperand, mark, ↓reduceIte]
  exact inner.bind (Eventually.const (Expr.parenthesis e, rest))

def IsWord (w : String) : Prop := before? w = none ∧ w ≠ "(" ∧ w ≠ "CASE"

theorem ReadsOperand.leaf {w : String} (word : IsWord w) (ends : ts.head? ≠ some "(") :
    ReadsOperand (w :: ts) (leaf w) ts := by
  refine Eventually.of_succ ?_
  simp only [readOperand, word.1, word.2.1, word.2.2, ends, ↓reduceIte]
  exact .const (Grouping.leaf w, ts)

def closers : List String := [",", ")", "WHEN", "THEN", "ELSE", "END"]

theorem following_closer (closes : t ∈ closers) : following (t :: ts) = 0 := by
  simp only [closers, List.mem_cons, List.not_mem_nil, or_false] at closes
  rcases closes with rfl | rfl | rfl | rfl | rfl | rfl <;> rfl

/-- What may follow after a whole expression. -/
def Closes (ts : List String) : Prop := ∀ t, ts.head? = some t → t ∈ closers

theorem closes_cons (closes : t ∈ closers) : Closes (t :: ts) := by
  rintro u ⟨rfl⟩
  exact closes

theorem Closes.following_eq (closes : Closes ts) : following ts = 0 := by
  cases ts with
  | nil => rfl
  | cons t ts => exact following_closer (closes t rfl)

theorem Closes.head?_ne (closes : Closes ts) : ts.head? ≠ some "(" := by
  intro parenthesis
  exact absurd (closes "(" parenthesis) (by decide)

/-- A text that is read as `e` wherever an expression may end after it. -/
def ReadsAs (ts : List String) (e : Expr) : Prop :=
  ∀ rest, Closes rest → Reads 1 (ts ++ rest) e rest

def Opens (ts : List String) : Prop := ∃ t, ts.head? = some t ∧ t ∉ closers

theorem Opens.head?_append (opens : Opens ts) (rest : List String) :
    (ts ++ rest).head? = ts.head? := by
  obtain ⟨t, first, -⟩ := opens
  simp [List.head?_append, first]

theorem Opens.head?_ne (opens : Opens ts) (rest : List String) (closes : t ∈ closers) :
    (ts ++ rest).head? ≠ some t := by
  rw [opens.head?_append]
  obtain ⟨u, first, free⟩ := opens
  rw [first]
  rintro ⟨rfl⟩
  exact free closes

variable {f : Expr → Expr} {g : Expr → List String}

theorem readItems_of_reads {args : List Expr} (some : args ≠ [])
    (each : ∀ a ∈ args, ReadsAs (g a) (f a)) (rest : List String) :
    Eventually (fun n => readItems n ([","].intercalate (args.map g) ++ ")" :: rest))
      (args.map f, rest) := by
  induction args with
  | nil => exact absurd rfl some
  | cons a args ih =>
    refine Eventually.of_succ ?_
    simp only [readItems]
    cases args with
    | nil =>
      have first := each a (by simp) (")" :: rest) (closes_cons (by decide))
      simp only [List.map_cons, List.map_nil, List.intercalate_singleton]
      exact first.bind (Eventually.const ([f a], rest))
    | cons b args =>
      have items := ih (by simp) fun x hx => each x (List.mem_cons_of_mem a hx)
      have first := each a (by simp) ("," :: ([","].intercalate ((b :: args).map g) ++ ")" :: rest))
        (closes_cons (by decide))
      have text : [","].intercalate ((a :: b :: args).map g) ++ ")" :: rest =
          g a ++ "," :: ([","].intercalate ((b :: args).map g) ++ ")" :: rest) := by
        simp [List.intercalate_cons_cons]
      rw [text]
      exact first.bind items.map

theorem ReadsOperand.function {name : String} {args : List Expr} (word : IsWord name)
    (each : ∀ a ∈ args, Opens (g a) ∧ ReadsAs (g a) (f a)) (rest : List String) :
    ReadsOperand (name :: "(" :: ([","].intercalate (args.map g) ++ ")" :: rest))
      (.function name (args.map f)) rest := by
  have arguments : Eventually
      (fun n => readArguments n ([","].intercalate (args.map g) ++ ")" :: rest))
      (args.map f, rest) := by
    refine Eventually.of_succ ?_
    cases args with
    | nil => exact .const ([], rest)
    | cons a args =>
      have text : ∃ tail, [","].intercalate ((a :: args).map g) ++ ")" :: rest = g a ++ tail := by
        cases args <;> simp [List.intercalate_cons_cons, List.append_assoc]
      obtain ⟨tail, text⟩ := text
      have nonempty : ([","].intercalate ((a :: args).map g) ++ ")" :: rest).head? ≠ some ")" := by
        rw [text]
        exact (each a (by simp)).1.head?_ne tail (by decide)
      simp only [readArguments, nonempty, ↓reduceIte]
      exact readItems_of_reads (by simp) (fun x hx => (each x hx).2) rest
  refine Eventually.of_succ ?_
  simp only [readOperand, word.1, word.2.1, word.2.2, List.head?_cons, List.tail_cons, ↓reduceIte]
  exact arguments.map

theorem readArms_of_reads {arms : List (Expr × Expr)}
    (each : ∀ arm ∈ arms, ReadsAs (g arm.1) (f arm.1) ∧ ReadsAs (g arm.2) (f arm.2))
    (rest : List String) (closes : Closes rest) (ends : rest.head? ≠ some "WHEN") :
    Eventually (fun n => readArms n
        (arms.flatMap (fun arm => "WHEN" :: (g arm.1 ++ "THEN" :: g arm.2)) ++ rest))
      (arms.map fun arm => (f arm.1, f arm.2), rest) := by
  induction arms with
  | nil =>
    refine Eventually.of_succ ?_
    simp only [readArms, List.flatMap_nil, List.nil_append, ends, ↓reduceIte]
    exact .const ([], rest)
  | cons arm arms ih =>
    have others := ih fun x hx => each x (List.mem_cons_of_mem arm hx)
    have after : Closes
        (arms.flatMap (fun arm => "WHEN" :: (g arm.1 ++ "THEN" :: g arm.2)) ++ rest) := by
      cases arms with
      | nil => exact closes
      | cons arm arms => exact closes_cons (by decide)
    have condition := (each arm (by simp)).1 ("THEN" :: (g arm.2 ++
      (arms.flatMap (fun arm => "WHEN" :: (g arm.1 ++ "THEN" :: g arm.2)) ++ rest)))
      (closes_cons (by decide))
    have result := (each arm (by simp)).2 _ after
    refine Eventually.of_succ ?_
    simp only [readArms, List.flatMap_cons, List.cons_append, List.append_assoc, List.head?_cons,
      List.tail_cons, ↓reduceIte]
    exact condition.bind ((Eventually.const _).bind (result.bind others.map))

theorem readOtherwise_of_reads {o : Option Expr} (branch : ∀ e ∈ o, ReadsAs (g e) (f e))
    (rest : List String) :
    Eventually (fun n => readOtherwise n
      (o.toList.flatMap (fun e => "ELSE" :: g e) ++ "END" :: rest)) (o.map f, "END" :: rest) := by
  refine Eventually.of_succ ?_
  cases o with
  | none => exact .const (none, "END" :: rest)
  | some e =>
    have last := branch e rfl ("END" :: rest) (closes_cons (by decide))
    simp only [readOtherwise, Option.toList_some, List.flatMap_cons, List.flatMap_nil,
      List.append_nil, List.cons_append, List.head?_cons, List.tail_cons, ↓reduceIte]
    exact last.map

theorem readSubject_of_reads {s : Option Expr}
    (subject : ∀ e ∈ s, Opens (g e) ∧ ReadsAs (g e) (f e))
    (next : t ∈ ["WHEN", "ELSE", "END"]) (rest : List String) :
    Eventually (fun n => readSubject n (s.toList.flatMap g ++ t :: rest))
      (s.map f, t :: rest) := by
  have closes : t ∈ closers := by
    simp only [List.mem_cons, List.not_mem_nil, or_false] at next
    rcases next with rfl | rfl | rfl <;> decide
  refine Eventually.of_succ ?_
  cases s with
  | none =>
    have next : t = "WHEN" ∨ t = "ELSE" ∨ t = "END" := by simpa using next
    simp only [readSubject, Option.toList_none, List.flatMap_nil, List.nil_append, List.head?_cons,
      Option.some.injEq, next, ↓reduceIte]
    exact .const (none, t :: rest)
  | some e =>
    obtain ⟨opens, reads⟩ := subject e rfl
    have first := reads (t :: rest) (closes_cons closes)
    have begins : ∀ u ∈ closers, (g e ++ t :: rest).head? ≠ some u := fun u hu =>
      opens.head?_ne (t :: rest) hu
    simp only [readSubject, Option.toList_some, List.flatMap_cons, List.flatMap_nil,
      List.append_nil, begins "WHEN" (by decide), begins "ELSE" (by decide),
      begins "END" (by decide), or_self, ↓reduceIte]
    exact first.map

theorem ReadsOperand.case {s o : Option Expr} {arms : List (Expr × Expr)}
    (subject : ∀ e ∈ s, Opens (g e) ∧ ReadsAs (g e) (f e))
    (each : ∀ arm ∈ arms, ReadsAs (g arm.1) (f arm.1) ∧ ReadsAs (g arm.2) (f arm.2))
    (branch : ∀ e ∈ o, ReadsAs (g e) (f e)) (rest : List String) :
    ReadsOperand ("CASE" :: (s.toList.flatMap g ++
        (arms.flatMap (fun arm => "WHEN" :: (g arm.1 ++ "THEN" :: g arm.2)) ++
          (o.toList.flatMap (fun e => "ELSE" :: g e) ++ "END" :: rest))))
      (.case (s.map f) (arms.map fun arm => (f arm.1, f arm.2)) (o.map f)) rest := by
  have last := readOtherwise_of_reads branch rest
  obtain ⟨u, tail, hu, ends⟩ : ∃ u tail, u ∈ ["ELSE", "END"] ∧
      o.toList.flatMap (fun e => "ELSE" :: g e) ++ "END" :: rest = u :: tail := by
    cases o with
    | none => exact ⟨"END", rest, by decide, rfl⟩
    | some e => exact ⟨"ELSE", g e ++ "END" :: rest, by decide, by simp⟩
  rw [ends] at last ⊢
  have closes : u ∈ closers ∧ u ≠ "WHEN" := by
    simp only [List.mem_cons, List.not_mem_nil, or_false] at hu
    rcases hu with rfl | rfl <;> decide
  have middle := readArms_of_reads each (u :: tail) (closes_cons closes.1)
    (by simpa using closes.2)
  obtain ⟨v, next, hv, begins⟩ : ∃ v next, v ∈ ["WHEN", "ELSE", "END"] ∧
      arms.flatMap (fun arm => "WHEN" :: (g arm.1 ++ "THEN" :: g arm.2)) ++ u :: tail =
        v :: next := by
    cases arms with
    | nil => exact ⟨u, tail, List.mem_cons_of_mem "WHEN" hu, rfl⟩
    | cons arm arms => exact ⟨"WHEN", _, by decide, rfl⟩
  rw [begins] at middle ⊢
  have first := readSubject_of_reads subject hv next
  have whole : Eventually (fun n => readCase n (s.toList.flatMap g ++ v :: next))
      (.case (s.map f) (arms.map fun arm => (f arm.1, f arm.2)) (o.map f), rest) := by
    refine Eventually.of_succ ?_
    simp only [readCase]
    exact first.bind (middle.bind (last.bind (Eventually.const _)))
  have keyword : before? "CASE" = none := by decide
  refine Eventually.of_succ ?_
  simp only [readOperand, keyword, ↓reduceIte]
  exact whole

end

end SqlFragment.Grouping
