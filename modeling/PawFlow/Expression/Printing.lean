import Mathlib.Data.List.TakeWhile
import PawFlow.Expression.Pipeline

/-!
# Printed pipelines

A key and its operations, printed with their arguments in double quotes. The splitter reads
parentheses and `${…}` inside the quotes too: a printed pipeline is parsed to what it was printed
from exactly when this does no harm.
-/

namespace PawFlow.Expression

open PawFlow.Lib

/-! ## Printing -/

/-- An argument in double quotes. -/
def quoted (a : Text) : Text := '"' :: (a ++ ['"'])

def printArgs : List Text → Text
  | [] => []
  | [a] => quoted a
  | a :: b :: rest => quoted a ++ ',' :: printArgs (b :: rest)

def printOperation (op : Operation) : Text :=
  if op.2 = [] then op.1 else op.1 ++ '(' :: (printArgs op.2 ++ [')'])

/-- `key:op1("a","b"):op2`. -/
def printPipeline (key : Text) (ops : List Operation) : Text :=
  key ++ ops.flatMap fun op => ':' :: printOperation op

/-- The characters of identifiers; beyond ASCII, all that are no blanks are let in. -/
def isIdentifierChar (c : Char) : Bool :=
  c.isAlphanum || c = '_' || (decide (128 ≤ c.toNat) && !isSpace c)

/-- A key and operations that are printed. -/
structure Printable (key : Text) (ops : List Operation) : Prop where
  key : ∀ c ∈ key, c ∉ [':', '(', ')', '$']
  ops_ne : ops ≠ []
  names_ne : ∀ op ∈ ops, op.1 ≠ []
  names : ∀ op ∈ ops, ∀ c ∈ op.1, isIdentifierChar c
  args : ∀ op ∈ ops, ∀ a ∈ op.2, '"' ∉ a

/-! ## What the splitter counts -/

/-- The parentheses and the expressions that are open. -/
structure Nesting where
  paren : Int := 0
  braces : Nat := 0
deriving DecidableEq

/-- One character, before another; `none` at a colon outside of everything. -/
def Nesting.step (s : Nesting) (c : Char) (next : Option Char) : Option Nesting :=
  if c = '$' ∧ next = some '{' then some { s with braces := s.braces + 1 }
  else if c = '}' ∧ 0 < s.braces then some { s with braces := s.braces - 1 }
  else if c = '(' then some { s with paren := s.paren + 1 }
  else if c = ')' then some { s with paren := s.paren - 1 }
  else if c = ':' ∧ s.paren = 0 ∧ s.braces = 0 then none
  else some s

def Nesting.after (s : Nesting) : Text → Option Nesting
  | [] => some s
  | c :: rest => (s.step c rest.head?).bind fun s => s.after rest

/-- No operation has a colon outside of the parentheses and expressions counted in it, and all but
the last close what they open. -/
def Separable : List Operation → Prop
  | [] => True
  | op :: ops =>
    (Nesting.after {} (printOperation op)).isSome ∧
      (ops ≠ [] → Nesting.after {} (printOperation op) = some {}) ∧ Separable ops

/-! ## Splitting -/

section

variable {current rest text : Text} {s s' : Nesting}

theorem splitFrom_step (c : Char) :
    splitFrom current s.paren s.braces (c :: rest) =
      match s.step c rest.head? with
      | some s' => splitFrom (c :: current) s'.paren s'.braces rest
      | none => current.reverse :: splitFrom [] 0 0 rest := by
  rw [splitFrom]
  unfold Nesting.step
  split
  · rfl
  split
  · rfl
  split
  · rfl
  split
  · rfl
  split
  · next h => rw [h.2.1, h.2.2]
  · rfl

theorem step_congr {c : Char} {next next' : Option Char} (h : next ≠ some '{')
    (h' : next' ≠ some '{') : s.step c next = s.step c next' := by
  simp [Nesting.step, h, h']

theorem splitFrom_after (hrest : rest.head? ≠ some '{') (h : s.after text = some s') :
    splitFrom current s.paren s.braces (text ++ rest) =
      splitFrom (text.reverse ++ current) s'.paren s'.braces rest := by
  induction text generalizing current s with
  | nil =>
    obtain rfl := Option.some.inj h
    rfl
  | cons c text ih =>
    obtain ⟨s₁, hstep, hafter⟩ := Option.bind_eq_some_iff.mp h
    have hnext : s.step c (text ++ rest).head? = some s₁ := by
      rw [← hstep]
      cases text with
      | nil => exact step_congr hrest (by simp)
      | cons d text => rfl
    rw [List.cons_append, splitFrom_step, hnext]
    simp only
    rw [ih hafter, List.reverse_cons, List.append_assoc]
    rfl

theorem splitFrom_none (hrest : rest.head? ≠ some '{') (h : s.after text = none) :
    ∃ pre post, text = pre ++ ':' :: post ∧ splitFrom current s.paren s.braces (text ++ rest) =
      (current.reverse ++ pre) :: splitFrom [] 0 0 (post ++ rest) := by
  induction text generalizing current s with
  | nil => exact absurd h (by simp [Nesting.after])
  | cons c text ih =>
    have hnext : s.step c (text ++ rest).head? = s.step c text.head? := by
      cases text with
      | nil => exact step_congr hrest (by simp)
      | cons d text => rfl
    rw [List.cons_append, splitFrom_step, hnext]
    cases hstep : s.step c text.head? with
    | none =>
      have hcolon : c = ':' := by
        by_contra hcolon
        simp only [Nesting.step, hcolon, false_and, if_false] at hstep
        repeat' split at hstep
        all_goals exact absurd hstep (by simp)
      exact ⟨[], text, by rw [hcolon]; rfl, by simp⟩
    | some s₁ =>
      rw [Nesting.after, hstep] at h
      obtain ⟨pre, post, rfl, hsplit⟩ := @ih (c :: current) _ h
      exact ⟨c :: pre, post, rfl, by simp only [hsplit]; simp⟩

theorem splitFrom_head (hcurrent : current ≠ []) (paren : Int) (depth : Nat) :
    ∃ more parts, splitFrom current paren depth text = (current.reverse ++ more) :: parts := by
  induction text generalizing current paren depth with
  | nil => exact ⟨[], [], by simp [splitFrom, hcurrent]⟩
  | cons c text ih =>
    have hread : ∀ paren depth, ∃ more parts,
        splitFrom (c :: current) paren depth text = (current.reverse ++ more) :: parts := by
      intro paren depth
      obtain ⟨more, parts, h⟩ := ih (List.cons_ne_nil c current) paren depth
      exact ⟨c :: more, parts, by rw [h]; simp⟩
    unfold splitFrom
    repeat' split
    all_goals first
      | exact hread _ _
      | exact ⟨[], _, by rw [List.append_nil]⟩

end

/-! ## Blanks -/

section

variable {a x : Text} {c : Char}

/-- Blanks behind a character that is none. -/
def stripRight (t : Text) : Text := (t.reverse.dropWhile isSpace).reverse

theorem stripRight_cons (hc : isSpace c = false) (t : Text) :
    stripRight (c :: t) = c :: stripRight t := by
  unfold stripRight
  rw [List.reverse_cons, List.dropWhile_append]
  split
  · next h =>
    rw [List.isEmpty_iff.mp h]
    simp [hc]
  · simp

theorem stripRight_append (hc : isSpace c = false) (x t : Text) :
    stripRight (x ++ c :: t) = x ++ c :: stripRight t := by
  unfold stripRight
  rw [List.reverse_append, List.reverse_cons, List.append_assoc, List.dropWhile_append]
  split
  · next h =>
    rw [List.isEmpty_iff.mp h]
    simp [hc]
  · simp

theorem stripRight_spec (t : Text) : ∃ blanks, (∀ c ∈ blanks, isSpace c) ∧
    t = stripRight t ++ blanks := by
  refine ⟨(t.reverse.takeWhile isSpace).reverse, fun c hc => ?_, ?_⟩
  · exact List.mem_takeWhile_imp (List.mem_reverse.mp hc)
  · unfold stripRight
    rw [← List.reverse_append, List.takeWhile_append_dropWhile, List.reverse_reverse]

theorem strip_cons (hc : isSpace c = false) (t : Text) : strip (c :: t) = c :: stripRight t := by
  rw [← stripRight_cons hc]
  simp [strip, stripRight, hc]

theorem stripRight_of_notMem (h : ∀ c ∈ x, isSpace c = false) : stripRight x = x := by
  induction x with
  | nil => rfl
  | cons c x ih =>
    rw [stripRight_cons (h c (by simp)), ih fun d hd => h d (List.mem_cons_of_mem _ hd)]

/-! ## Arguments -/

theorem strip_quoted (a : Text) : strip (quoted a) = quoted a := by
  rw [quoted, strip_cons (by decide), stripRight_append (by decide)]
  rfl

theorem quotedBy_cons {q d : Char} (y : Text) :
    quotedBy q (d :: (y ++ [c])) = decide (d = q ∧ c = q) := by
  have hlast : (d :: (y ++ [c])).getLast? = some c := by
    rw [← List.cons_append, List.getLast?_concat]
  simp [quotedBy, hlast]

theorem cleanArg_quoted (a : Text) : cleanArg (quoted a) = a := by
  unfold cleanArg
  rw [strip_quoted, quoted]
  simp [quotedBy_cons]

theorem cleanArg_open (hx : '"' ∉ x) : cleanArg ('"' :: x) = [] ∨ '"' ∈ cleanArg ('"' :: x) := by
  unfold cleanArg
  rw [strip_cons (by decide)]
  obtain ⟨blanks, -, hsplit⟩ := stripRight_spec x
  have hquote : '"' ∉ stripRight x := fun hmem => hx (hsplit ▸ List.mem_append_left _ hmem)
  rcases List.eq_nil_or_concat (stripRight x) with hnil | ⟨y, c, hlast⟩
  · rw [hnil]
    exact .inl rfl
  · rw [List.concat_eq_append] at hlast
    rw [hlast] at hquote ⊢
    have hc : c ≠ '"' := fun heq => hquote (by simp [heq])
    refine .inr ?_
    simp only [quotedBy_cons]
    rw [if_neg (by simp [hc])]
    exact List.mem_cons_self

theorem cleanArg_closed (hc : isSpace c = false) (a more : Text) :
    '"' ∈ cleanArg (quoted a ++ c :: more) := by
  have hstrip : strip (quoted a ++ c :: more) = '"' :: (a ++ '"' :: c :: stripRight more) := by
    simp only [quoted, List.cons_append, List.append_assoc, List.nil_append]
    rw [strip_cons (by decide), stripRight_append (by decide), stripRight_cons hc]
  unfold cleanArg
  rw [hstrip]
  simp only
  split
  · rw [List.tail_cons, List.dropLast_append_of_ne_nil (by simp)]
    rw [List.dropLast_cons_of_ne_nil (by simp)]
    simp
  · simp

/-! ### Splitting them -/

theorem splitArgsFrom_open (t : Text) :
    splitArgsFrom [] none 0 ('"' :: t) = splitArgsFrom ['"'] (some '"') 0 t := by
  rw [splitArgsFrom]
  simp

theorem splitArgsFrom_inside (hx : '"' ∉ x) (current t : Text) :
    splitArgsFrom current (some '"') 0 (x ++ t) =
      splitArgsFrom (x.reverse ++ current) (some '"') 0 t := by
  induction x generalizing current with
  | nil => rfl
  | cons d x ih =>
    have hd : d ≠ '"' := fun heq => hx (by simp [heq])
    have hstep : splitArgsFrom current (some '"') 0 (d :: (x ++ t)) =
        splitArgsFrom (d :: current) (some '"') 0 (x ++ t) := by
      rw [splitArgsFrom]
      by_cases hsingle : d = '\x27'
      · subst hsingle
        simp
      · simp [hd, hsingle]
    rw [List.cons_append, hstep, ih (fun hmem => hx (List.mem_cons_of_mem _ hmem)),
      List.reverse_cons, List.append_assoc]
    rfl

theorem splitArgsFrom_close (current t : Text) :
    splitArgsFrom current (some '"') 0 ('"' :: t) = splitArgsFrom ('"' :: current) none 0 t := by
  rw [splitArgsFrom]
  simp

theorem splitArgsFrom_quoted (ha : '"' ∉ a) (t : Text) :
    splitArgsFrom [] none 0 (quoted a ++ t) = splitArgsFrom (quoted a).reverse none 0 t := by
  simp only [quoted, List.cons_append, List.append_assoc, List.nil_append]
  rw [splitArgsFrom_open, splitArgsFrom_inside ha, splitArgsFrom_close]
  simp

theorem splitArgs_last (ha : '"' ∉ a) : splitArgs (quoted a) = [quoted a] := by
  have h := splitArgsFrom_quoted ha []
  rw [List.append_nil] at h
  rw [splitArgs, h, splitArgsFrom]
  simp [quoted]

theorem splitArgs_next (ha : '"' ∉ a) (t : Text) :
    splitArgs (quoted a ++ ',' :: t) = quoted a :: splitArgs t := by
  rw [splitArgs, splitArgsFrom_quoted ha, splitArgsFrom]
  simp [splitArgs]

theorem splitArgs_open (hx : '"' ∉ x) : splitArgs ('"' :: x) = ['"' :: x] := by
  have h := splitArgsFrom_inside hx ['"'] []
  rw [List.append_nil] at h
  rw [splitArgs, splitArgsFrom_open, h, splitArgsFrom]
  simp

theorem splitArgsFrom_head {current : Text} (hcurrent : current ≠ []) (inQuote : Option Char)
    (depth : Int) (t : Text) :
    ∃ more parts, splitArgsFrom current inQuote depth t = (current.reverse ++ more) :: parts := by
  induction t generalizing current inQuote depth with
  | nil => exact ⟨[], [], by simp [splitArgsFrom, hcurrent]⟩
  | cons d t ih =>
    have hread : ∀ inQuote depth, ∃ more parts,
        splitArgsFrom (d :: current) inQuote depth t = (current.reverse ++ more) :: parts := by
      intro inQuote depth
      obtain ⟨more, parts, h⟩ := ih (List.cons_ne_nil d current) inQuote depth
      exact ⟨d :: more, parts, by rw [h]; simp⟩
    unfold splitArgsFrom
    repeat' split
    all_goals first
      | exact hread _ _
      | exact ⟨[], _, by rw [List.append_nil]⟩

theorem splitArgs_printArgs {args : List Text} (h : ∀ a ∈ args, '"' ∉ a) (hne : args ≠ []) :
    (splitArgs (printArgs args)).map cleanArg = args := by
  induction args with
  | nil => exact absurd rfl hne
  | cons a args ih =>
    have ha := h a (by simp)
    cases args with
    | nil =>
      rw [printArgs, splitArgs_last ha]
      simp [cleanArg_quoted]
    | cons b args =>
      rw [printArgs, splitArgs_next ha, List.map_cons, cleanArg_quoted,
        ih (fun c hc => h c (List.mem_cons_of_mem a hc)) (List.cons_ne_nil b args)]

theorem splitArgs_more {args : List Text} (h : ∀ a ∈ args, '"' ∉ a) (hne : args ≠ [])
    (more : Text) : (splitArgs (printArgs args ++ ')' :: more)).map cleanArg ≠ args := by
  induction args with
  | nil => exact absurd rfl hne
  | cons a args ih =>
    have ha := h a (by simp)
    cases args with
    | nil =>
      rw [printArgs, splitArgs, splitArgsFrom_quoted ha]
      have hstep : splitArgsFrom (quoted a).reverse none 0 (')' :: more) =
          splitArgsFrom (')' :: (quoted a).reverse) none 0 more := by
        rw [splitArgsFrom]
        simp
      obtain ⟨more', parts, hsplit⟩ :=
        splitArgsFrom_head (List.cons_ne_nil ')' (quoted a).reverse) none 0 more
      rw [hstep, hsplit, List.map_cons]
      intro heq
      have hquote := cleanArg_closed (c := ')') (by decide) a more'
      rw [List.reverse_cons, List.reverse_reverse, List.append_assoc] at heq
      rw [show quoted a ++ ')' :: more' = quoted a ++ ([')'] ++ more') from rfl,
        (List.cons.inj heq).1] at hquote
      exact ha hquote
    | cons b args =>
      rw [printArgs, List.append_assoc, List.cons_append, splitArgs_next ha, List.map_cons,
        cleanArg_quoted]
      intro heq
      exact ih (fun c hc => h c (List.mem_cons_of_mem a hc)) (List.cons_ne_nil b args)
        (List.cons.inj heq).2

theorem splitArgs_inside {args : List Text} {a' w t : Text} (ha : '"' ∉ x ++ a')
    (ha' : ')' :: w = a' ++ '"' :: t) :
    (splitArgs ('"' :: x)).map cleanArg ≠ (x ++ a') :: args := by
  rw [splitArgs_open fun hmem => ha (List.mem_append_left _ hmem), List.map_singleton]
  intro heq
  obtain ⟨harg, -⟩ := List.cons.inj heq
  rcases cleanArg_open (x := x) fun hmem => ha (List.mem_append_left _ hmem) with hnil | hquote
  · rw [hnil] at harg
    cases a' with
    | nil => exact absurd (List.cons.inj ha').1 (by decide)
    | cons e a' => exact absurd harg.symm (by simp)
  · exact ha (harg ▸ hquote)

/-- A text cut at a parenthesis inside an argument does not give the arguments. -/
theorem splitArgs_cut {args : List Text} (h : ∀ a ∈ args, '"' ∉ a) {inner w : Text}
    (hw : w ≠ []) (hcut : inner ++ ')' :: w = printArgs args ++ [')']) :
    (splitArgs inner).map cleanArg ≠ args := by
  induction args generalizing inner with
  | nil =>
    cases inner with
    | nil => exact absurd (List.cons.inj hcut).2 hw
    | cons d inner =>
      have hlength := congrArg List.length hcut
      simp [printArgs] at hlength
  | cons a args ih =>
    have ha := h a (by simp)
    cases inner with
    | nil =>
      cases args with
      | nil => exact absurd (List.cons.inj hcut).1 (by decide)
      | cons b args => exact absurd (List.cons.inj hcut).1 (by decide)
    | cons d x =>
      cases args with
      | nil =>
        have hx : x ++ ')' :: w = a ++ ['"', ')'] := by
          simpa [printArgs, quoted] using (List.cons.inj hcut).2
        obtain rfl : d = '"' := (List.cons.inj hcut).1
        rcases List.append_eq_append_iff.mp hx with ⟨a', rfl, ha'⟩ | ⟨x', rfl, hx'⟩
        · exact splitArgs_inside ha ha'
        · -- the quote of the only argument is closed
          rcases x' with - | ⟨e, - | ⟨e', x'⟩⟩
          · exact absurd (List.cons.inj hx').1 (by decide)
          · exact absurd (List.cons.inj (List.cons.inj hx').2).2.symm hw
          · have hlength := congrArg List.length hx'
            simp at hlength
      | cons b args =>
        have hx : x ++ ')' :: w = a ++ '"' :: ',' :: (printArgs (b :: args) ++ [')']) := by
          simpa [printArgs, quoted] using (List.cons.inj hcut).2
        obtain rfl : d = '"' := (List.cons.inj hcut).1
        rcases List.append_eq_append_iff.mp hx with ⟨a', rfl, ha'⟩ | ⟨x', rfl, hx'⟩
        · exact splitArgs_inside ha ha'
        · rcases x' with - | ⟨e, - | ⟨e', x'⟩⟩
          · exact absurd (List.cons.inj hx').1 (by decide)
          · exact absurd (List.cons.inj (List.cons.inj hx').2).1 (by decide)
          · obtain ⟨rfl, hcomma⟩ := List.cons.inj hx'
            obtain ⟨rfl, hrest⟩ := List.cons.inj hcomma
            have hquoted : '"' :: (a ++ '"' :: ',' :: x') = quoted a ++ ',' :: x' := by
              simp [quoted]
            rw [hquoted, splitArgs_next ha, List.map_cons, cleanArg_quoted]
            intro heq
            exact ih (fun c hc => h c (List.mem_cons_of_mem a hc)) hrest.symm
              (List.cons.inj heq).2

end

/-! ## Operations -/

section

variable {name : Text} {args : List Text}

theorem isIdentifierChar_spec {c : Char} (h : isIdentifierChar c) :
    isSpace c = false ∧ c ∉ [':', '(', ')', '$', '{', '}', '"', '!', ','] := by
  have hothers : [':', '(', ')', '$', '{', '}', '"', '!', ','].all (!isIdentifierChar ·) := by
    decide
  refine ⟨?_, fun hmem => by simpa [h] using List.all_eq_true.mp hothers c hmem⟩
  simp only [isIdentifierChar, Bool.or_eq_true, Bool.and_eq_true, decide_eq_true_eq,
    Bool.not_eq_true'] at h
  rcases h with (halpha | rfl) | ⟨-, hspace⟩
  · exact not_isSpace_of_isAlphanum halpha
  · decide
  · exact hspace

theorem strip_name (hne : name ≠ []) (h : ∀ c ∈ name, isIdentifierChar c) : strip name = name := by
  obtain ⟨c, tail, rfl⟩ := List.exists_cons_of_ne_nil hne
  rw [strip_cons (isIdentifierChar_spec (h c (by simp))).1, stripRight_of_notMem fun d hd =>
    (isIdentifierChar_spec (h d (List.mem_cons_of_mem c hd))).1]

theorem parseOperation_paren (hne : name ≠ []) (h : ∀ c ∈ name, isIdentifierChar c) (body : Text) :
    parseOperation (name ++ '(' :: body) =
      (name, if ('(' :: stripRight body).getLast? = some ')' then
        (splitArgs (stripRight body).dropLast).map cleanArg else []) := by
  have hname : ∀ c ∈ name, c ≠ '(' := by
    rintro c hc rfl
    exact absurd (h _ hc) (by decide)
  have hstrip : strip (name ++ '(' :: body) = name ++ '(' :: stripRight body := by
    obtain ⟨c, tail, rfl⟩ := List.exists_cons_of_ne_nil hne
    rw [List.cons_append, strip_cons (isIdentifierChar_spec (h c (by simp))).1,
      stripRight_append (by decide), List.cons_append]
  have htake : (name ++ '(' :: stripRight body).takeWhile (· ≠ '(') = name := by
    rw [List.takeWhile_append_of_pos (by simpa using hname)]
    simp
  have hdrop : (name ++ '(' :: stripRight body).dropWhile (· ≠ '(') = '(' :: stripRight body := by
    rw [List.dropWhile_append_of_pos (by simpa using hname)]
    simp
  have hlast : (name ++ '(' :: stripRight body).getLast? = ('(' :: stripRight body).getLast? := by
    rw [List.getLast?_append, List.getLast?_cons]
    rfl
  unfold parseOperation
  rw [hstrip, if_neg (by simp), htake, hdrop, hlast, strip_name hne h, List.tail_cons]
  by_cases hparen : ('(' :: stripRight body).getLast? = some ')'
  · rw [if_neg (by simp [hparen]), if_pos hparen]
  · rw [if_pos hparen, if_neg hparen]

variable {op : Operation} (hne : op.1 ≠ []) (hname : ∀ c ∈ op.1, isIdentifierChar c)
  (hargs : ∀ a ∈ op.2, '"' ∉ a)
include hne hname hargs

theorem parseOperation_print : parseOperation (printOperation op) = op := by
  obtain ⟨name, args⟩ := op
  unfold printOperation
  split
  · next hnil =>
    have hparen : '(' ∉ name := fun hmem => absurd (hname _ hmem) (by decide)
    have hstrip : strip name = name := strip_name hne hname
    unfold parseOperation
    simp only at hnil ⊢
    rw [hstrip, if_pos hparen, hnil]
  · next hsome =>
    have hbody : stripRight (printArgs args ++ [')']) = printArgs args ++ [')'] :=
      stripRight_append (by decide) _ []
    have hlast : ('(' :: (printArgs args ++ [')'])).getLast? = some ')' := by
      rw [← List.cons_append, List.getLast?_concat]
    rw [parseOperation_paren hne hname, hbody, if_pos hlast, List.dropLast_concat,
      splitArgs_printArgs hargs hsome]

/-- What is read of an operation that was split at a colon in its arguments. -/
theorem parseOperation_cut {pre post : Text} (h : printOperation op = pre ++ ':' :: post) :
    (parseOperation pre).1 ≠ [] ∧ parseOperation pre ≠ op := by
  obtain ⟨name, args⟩ := op
  have hcolon : ':' ∉ name := fun hmem => absurd (hname _ hmem) (by decide)
  unfold printOperation at h
  split at h
  · simp only at h
    rw [h] at hcolon
    exact absurd (by simp) hcolon
  · next hsome =>
    simp only at h hsome
    rcases List.append_eq_append_iff.mp h with ⟨q, rfl, hq⟩ | ⟨q, hq, hpost⟩
    · cases q with
      | nil => exact absurd (List.cons.inj hq).1 (by decide)
      | cons d q =>
        obtain ⟨rfl, hbody⟩ := List.cons.inj hq
        rw [parseOperation_paren hne hname]
        refine ⟨hne, fun heq => ?_⟩
        have hparsed := congrArg Prod.snd heq
        simp only at hparsed
        split at hparsed
        · next hlast =>
          obtain ⟨blanks, -, hsplit⟩ := stripRight_spec q
          obtain ⟨inner, hinner⟩ : ∃ inner, stripRight q = inner ++ [')'] := by
            rcases List.eq_nil_or_concat (stripRight q) with hnil | ⟨inner, c, hconcat⟩
            · rw [hnil] at hlast
              exact absurd hlast (by decide)
            · rw [List.concat_eq_append] at hconcat
              rw [hconcat, ← List.cons_append, List.getLast?_concat] at hlast
              exact ⟨inner, by rw [hconcat, Option.some.inj hlast]⟩
          rw [hinner, List.dropLast_concat] at hparsed
          refine splitArgs_cut hargs (w := blanks ++ ':' :: post) (by simp) ?_ hparsed
          change printArgs args ++ [')'] = q ++ ':' :: post at hbody
          rw [hbody, hsplit, hinner]
          simp
        · exact hsome hparsed.symm
    · cases q with
      | nil => exact absurd (List.cons.inj hpost).1 (by decide)
      | cons d q =>
        obtain ⟨rfl, -⟩ := List.cons.inj hpost
        rw [hq] at hcolon
        exact absurd (by simp) hcolon

theorem parseOperation_more (hsome : op.2 ≠ []) {c : Char} (hc : isIdentifierChar c) (more : Text) :
    (parseOperation (printOperation op ++ ':' :: c :: more)).1 ≠ [] ∧
      parseOperation (printOperation op ++ ':' :: c :: more) ≠ op := by
  obtain ⟨name, args⟩ := op
  simp only at hsome
  have hbody : stripRight (printArgs args ++ ')' :: ':' :: c :: more) =
      printArgs args ++ ')' :: ':' :: c :: stripRight more := by
    rw [stripRight_append (by decide), stripRight_cons (by decide),
      stripRight_cons (isIdentifierChar_spec hc).1]
  have hprinted : printOperation (name, args) ++ ':' :: c :: more =
      name ++ '(' :: (printArgs args ++ ')' :: ':' :: c :: more) := by
    simp [printOperation, hsome]
  rw [hprinted, parseOperation_paren hne hname, hbody]
  refine ⟨hne, fun heq => ?_⟩
  have hparsed := congrArg Prod.snd heq
  simp only at hparsed
  split at hparsed
  · rw [List.dropLast_append_of_ne_nil (by simp), List.dropLast_cons_of_ne_nil (by simp)] at hparsed
    exact splitArgs_more hargs hsome _ hparsed
  · exact hsome hparsed.symm

end

/-! ## Pipelines -/

section

variable {key : Text} {op : Operation} {ops : List Operation}

/-- The operations behind the first one, each with its colon. -/
def printRest (ops : List Operation) : Text := ops.flatMap fun op => ':' :: printOperation op

theorem printRest_head : (printRest ops).head? ≠ some '{' := by
  cases ops with
  | nil => simp [printRest]
  | cons op ops => simp [printRest]

theorem printOperation_ne (hne : op.1 ≠ []) : printOperation op ≠ [] := by
  unfold printOperation
  split
  · exact hne
  · simp

theorem splitFrom_printed (hne : ∀ o ∈ op :: ops, o.1 ≠ []) (h : Separable (op :: ops)) :
    splitFrom [] 0 0 (printOperation op ++ printRest ops) =
      printOperation op :: ops.map printOperation := by
  induction ops generalizing op with
  | nil =>
    obtain ⟨s, hs⟩ := Option.isSome_iff_exists.mp h.1
    have hsplit := @splitFrom_after [] (printRest []) _ {} _ printRest_head hs
    rw [hsplit]
    simp [printRest, splitFrom, printOperation_ne (hne op (by simp))]
  | cons op' ops ih =>
    have hclosed := h.2.1 (List.cons_ne_nil op' ops)
    have hsplit := @splitFrom_after [] (printRest (op' :: ops)) _ {} _ printRest_head hclosed
    rw [hsplit, List.append_nil, printRest, List.flatMap_cons, List.cons_append, splitFrom]
    simp only [printRest] at ih
    simp [ih (fun o ho => hne o (List.mem_cons_of_mem op ho)) h.2.2]

theorem after_plain {s : Nesting} (hs : s.braces = 0) {text : Text}
    (h : ∀ c ∈ text, c ∉ [':', '(', ')', '$']) : s.after text = some s := by
  induction text with
  | nil => rfl
  | cons c text ih =>
    have hc := h c (by simp)
    simp only [List.mem_cons, List.not_mem_nil, or_false, not_or] at hc
    have hstep : s.step c text.head? = some s := by
      simp [Nesting.step, hc, hs]
    rw [Nesting.after, hstep]
    exact ih fun d hd => h d (List.mem_cons_of_mem c hd)

theorem step_identifier {s : Nesting} {c : Char} (hc : isIdentifierChar c) (next : Option Char) :
    s.step c next = some s := by
  have hspec := (isIdentifierChar_spec hc).2
  simp only [List.mem_cons, List.not_mem_nil, or_false, not_or] at hspec
  simp [Nesting.step, hspec]

theorem parsed_cons {part : Text} {parts : List Text} (hname : (parseOperation part).1 ≠ [])
    (h : ((part :: parts).map parseOperation).filter (fun o => o.1 ≠ []) = op :: ops) :
    parseOperation part = op ∧ (parts.map parseOperation).filter (fun o => o.1 ≠ []) = ops := by
  rw [List.map_cons, List.filter_cons_of_pos (by simpa using hname)] at h
  exact List.cons.inj h

section

variable (hne : ∀ o ∈ op :: ops, o.1 ≠ [])
  (hnames : ∀ o ∈ op :: ops, ∀ c ∈ o.1, isIdentifierChar c)
  (hargs : ∀ o ∈ op :: ops, ∀ a ∈ o.2, '"' ∉ a)
  (h : ((splitFrom [] 0 0 (printOperation op ++ printRest ops)).map parseOperation).filter
    (fun o => o.1 ≠ []) = op :: ops)
include hne hnames hargs h

theorem after_isSome : (Nesting.after {} (printOperation op)).isSome := by
  cases hafter : Nesting.after {} (printOperation op) with
  | some s => rfl
  | none =>
    obtain ⟨pre, post, hprinted, hsplit⟩ :=
      @splitFrom_none [] (printRest ops) _ {} printRest_head hafter
    obtain ⟨hpre, hdiffers⟩ := parseOperation_cut (hne op (by simp)) (hnames op (by simp))
      (hargs op (by simp)) hprinted
    rw [hsplit] at h
    exact absurd (parsed_cons hpre h).1 hdiffers

/-- The end of the first operation was found. -/
theorem after_closed (hops : ops ≠ []) : Nesting.after {} (printOperation op) = some {} := by
  obtain ⟨s, hs⟩ := Option.isSome_iff_exists.mp (after_isSome hne hnames hargs h)
  by_cases hzero : s = {}
  · rw [hs, hzero]
  exfalso
  have hsome : op.2 ≠ [] := by
    intro hnil
    apply hzero
    rw [printOperation, if_pos hnil, after_plain rfl] at hs
    · exact (Option.some.inj hs).symm
    · intro c hc hmem
      have hspec := (isIdentifierChar_spec (hnames op (by simp) c hc)).2
      simp only [List.mem_cons, List.not_mem_nil, or_false, not_or] at hspec hmem
      tauto
  obtain ⟨op', ops', rfl⟩ := List.exists_cons_of_ne_nil hops
  obtain ⟨c, name, hname⟩ := List.exists_cons_of_ne_nil (hne op' (by simp))
  have hc : isIdentifierChar c := hnames op' (by simp) c (by simp [hname])
  obtain ⟨tail, htail⟩ : ∃ tail, printRest (op' :: ops') = ':' :: c :: tail := by
    unfold printRest printOperation
    rw [List.flatMap_cons, hname]
    split
    · exact ⟨_, rfl⟩
    · exact ⟨_, rfl⟩
  -- the colon is read as part of the first operation
  have hcolon : s.step ':' (some c) = some s := by
    obtain ⟨paren, braces⟩ := s
    simp only [Nesting.mk.injEq, not_and] at hzero
    unfold Nesting.step
    rw [if_neg (by simp), if_neg (by simp), if_neg (by decide), if_neg (by decide), if_neg]
    rintro ⟨-, hparen, hbraces⟩
    exact hzero hparen hbraces
  obtain ⟨more, parts, hfirst⟩ := @splitFrom_head _ tail
    (List.cons_ne_nil c (':' :: (printOperation op).reverse)) s.paren s.braces
  obtain ⟨hpre, hdiffers⟩ := parseOperation_more (hne op (by simp)) (hnames op (by simp))
    (hargs op (by simp)) hsome hc more
  have hsplit : splitFrom [] 0 0 (printOperation op ++ printRest (op' :: ops')) =
      (printOperation op ++ ':' :: c :: more) :: parts := by
    calc splitFrom [] 0 0 (printOperation op ++ printRest (op' :: ops'))
        = splitFrom (printOperation op).reverse s.paren s.braces (printRest (op' :: ops')) := by
          rw [@splitFrom_after [] _ _ {} _ printRest_head hs, List.append_nil]
      _ = splitFrom (':' :: (printOperation op).reverse) s.paren s.braces (c :: tail) := by
          rw [htail, splitFrom_step, List.head?_cons, hcolon]
      _ = splitFrom (c :: ':' :: (printOperation op).reverse) s.paren s.braces tail := by
          rw [splitFrom_step, step_identifier hc]
      _ = (printOperation op ++ ':' :: c :: more) :: parts := by
          rw [hfirst]
          simp
  rw [hsplit] at h
  exact hdiffers (parsed_cons hpre h).1

end

theorem separable_of_parsed (hne : ∀ o ∈ op :: ops, o.1 ≠ [])
    (hnames : ∀ o ∈ op :: ops, ∀ c ∈ o.1, isIdentifierChar c)
    (hargs : ∀ o ∈ op :: ops, ∀ a ∈ o.2, '"' ∉ a)
    (h : ((splitFrom [] 0 0 (printOperation op ++ printRest ops)).map parseOperation).filter
      (fun o => o.1 ≠ []) = op :: ops) : Separable (op :: ops) := by
  induction ops generalizing op with
  | nil => exact ⟨after_isSome hne hnames hargs h, fun hnil => absurd rfl hnil, trivial⟩
  | cons op' ops ih =>
    have hclosed := after_closed hne hnames hargs h (List.cons_ne_nil op' ops)
    refine ⟨after_isSome hne hnames hargs h, fun _ => hclosed, ?_⟩
    have hsplit : splitFrom [] 0 0 (printOperation op ++ printRest (op' :: ops)) =
        printOperation op :: splitFrom [] 0 0 (printOperation op' ++ printRest ops) := by
      rw [@splitFrom_after [] _ _ {} _ printRest_head hclosed, List.append_nil, printRest,
        List.flatMap_cons, List.cons_append, splitFrom]
      simp [printRest]
    have hop := parseOperation_print (hne op (by simp)) (hnames op (by simp)) (hargs op (by simp))
    rw [hsplit] at h
    have hothers := (parsed_cons (by rw [hop]; exact hne op (by simp)) h).2
    exact ih (fun o ho => hne o (List.mem_cons_of_mem op ho))
      (fun o ho => hnames o (List.mem_cons_of_mem op ho))
      (fun o ho => hargs o (List.mem_cons_of_mem op ho)) hothers

theorem dropWhile_lastWord {x name : Text} {c : Char} (hc : isIdentifierChar c = false)
    (h : ∀ c ∈ name, isIdentifierChar c) :
    (x ++ c :: name).reverse.dropWhile isIdentifierChar = c :: x.reverse := by
  rw [List.reverse_append, List.reverse_cons, List.append_assoc,
    List.dropWhile_append_of_pos fun d hd => h d (List.mem_reverse.mp hd)]
  simp [hc]

theorem not_important (h : Printable key ops) :
    ¬ ":!important".toList <:+ printPipeline key ops := by
  rintro ⟨w, hw⟩
  have hmark : w ++ ":!important".toList = (w ++ [':']) ++ '!' :: "important".toList := by simp
  have hleft := dropWhile_lastWord (x := w ++ [':']) (c := '!') (by decide)
    (List.all_eq_true.mp (by decide : "important".toList.all isIdentifierChar))
  rw [← hmark, hw] at hleft
  obtain ⟨init, op, rfl⟩ := (List.eq_nil_or_concat' ops).resolve_left h.ops_ne
  have hop : op ∈ init ++ [op] := by simp
  unfold printPipeline printOperation at hleft
  rw [List.flatMap_append, List.flatMap_singleton, ← List.append_assoc] at hleft
  split at hleft
  · rw [dropWhile_lastWord (by decide) (h.names op hop)] at hleft
    exact absurd (List.cons.inj hleft).1 (by decide)
  · rw [← List.cons_append, ← List.cons_append, ← List.append_assoc, ← List.append_assoc] at hleft
    rw [dropWhile_lastWord (by decide) (by simp)] at hleft
    exact absurd (List.cons.inj hleft).1 (by decide)

theorem splitFrom_ne_nil {text : Text} (hne : text ≠ []) : splitFrom [] 0 0 text ≠ [] := by
  obtain ⟨c, text, rfl⟩ := List.exists_cons_of_ne_nil hne
  have hread : ∀ paren depth, splitFrom [c] paren depth text ≠ [] := by
    intro paren depth
    obtain ⟨more, parts, h⟩ := @splitFrom_head [c] text (List.cons_ne_nil c []) paren depth
    rw [h]
    exact List.cons_ne_nil _ _
  unfold splitFrom
  repeat' split
  all_goals first
    | exact hread _ _
    | exact List.cons_ne_nil _ _

/-- A printed pipeline is parsed to the key and the operations it was printed from exactly when
the parentheses, the expressions and the colons in its arguments do not mix the operations up. -/
theorem parse_printed (h : Printable key ops) :
    parsePipeline (printPipeline key ops) = (key, ops) ↔ Separable ops := by
  have himportant := not_important h
  obtain ⟨op, ops, rfl⟩ := List.exists_cons_of_ne_nil h.ops_ne
  have hparts : splitPipeline (printPipeline key (op :: ops)) =
      key :: splitFrom [] 0 0 (printOperation op ++ printRest ops) := by
    have hkey := @splitFrom_after [] (printRest (op :: ops)) key {} {} printRest_head
      (after_plain rfl h.key)
    rw [splitPipeline, printPipeline]
    change splitFrom [] 0 0 (key ++ printRest (op :: ops)) = _
    rw [hkey, List.append_nil, printRest, List.flatMap_cons, List.cons_append, splitFrom]
    simp [printRest]
  have hparse : parsePipeline (printPipeline key (op :: ops)) = (key,
      ((splitFrom [] 0 0 (printOperation op ++ printRest ops)).map parseOperation).filter
        fun o => o.1 ≠ []) := by
    have hne : splitFrom [] 0 0 (printOperation op ++ printRest ops) ≠ [] :=
      splitFrom_ne_nil (by simp [printOperation_ne (h.names_ne op (by simp))])
    obtain ⟨part, parts, hcons⟩ := List.exists_cons_of_ne_nil hne
    unfold parsePipeline
    rw [if_neg (by simp [printPipeline]), if_neg (by simpa using himportant), hparts, hcons]
  rw [hparse, Prod.mk.injEq]
  constructor
  · rintro ⟨-, hparsed⟩
    exact separable_of_parsed h.names_ne h.names h.args hparsed
  · rintro hseparable
    refine ⟨rfl, ?_⟩
    rw [splitFrom_printed h.names_ne hseparable, ← List.map_cons, List.map_map]
    have hmap : (op :: ops).map (parseOperation ∘ printOperation) = op :: ops := by
      refine (List.map_congr_left fun o ho => ?_).trans (List.map_id _)
      exact parseOperation_print (h.names_ne o ho) (h.names o ho) (h.args o ho)
    rw [hmap, List.filter_eq_self.mpr fun o ho => by simpa using h.names_ne o ho]

/-- Quotes keep commas, braces and blanks apart, and parentheses that are closed. -/
theorem parse_printed_default :
    parsePipeline (printPipeline "x".toList [("default".toList, [" a, (b:c) ".toList, []]),
        ("upper".toList, [])]) =
      ("x".toList, [("default".toList, [" a, (b:c) ".toList, []]), ("upper".toList, [])]) :=
  (parse_printed ⟨by simp, by decide, by decide, by simp [isIdentifierChar], by simp⟩).mpr
    ⟨by decide, by decide, by decide, by decide, trivial⟩

/-- A parenthesis that an argument closes takes the next operation with it. -/
theorem not_parse_printed_paren :
    Printable "x".toList [("append".toList, [")".toList]), ("upper".toList, [])] ∧
      parsePipeline (printPipeline "x".toList
          [("append".toList, [")".toList]), ("upper".toList, [])]) ≠
        ("x".toList, [("append".toList, [")".toList]), ("upper".toList, [])]) :=
  ⟨⟨by simp, by decide, by decide, by simp [isIdentifierChar], by simp⟩, by decide⟩

end

end PawFlow.Expression
