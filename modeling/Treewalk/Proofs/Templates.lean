import Treewalk.Template.Render

/-! # Templates one after the other

A template that does not end inside a directive may be followed by another one:
its directives take their arguments, and the other one goes on with the rest.
Whether a template ends inside a directive, and how many arguments it takes, is
found by reading it one character at a time.
-/

namespace Treewalk.Template

/-! ## Reading one character at a time -/

/-- Where a reader stands: in the text between directives, right after a percent
    sign, in the width or behind the point. -/
inductive Spot where
  | text
  | percent
  | width
  | point
  deriving DecidableEq

namespace Spot

/-- Read a character. In a directive, what is no part of the rest is the verb. -/
def next : Spot → Char → Spot
  | .text, c => if c = '%' then .percent else .text
  | .percent, c =>
      if c = '-' || c.isDigit then .width else if c = '.' then .point else .text
  | .width, c => if c.isDigit then .width else if c = '.' then .point else .text
  | .point, c => if c.isDigit then .point else .text

/-- Whether a character is a verb that takes an argument. -/
def takes (spot : Spot) (c : Char) : Bool := spot ≠ .text && spot.next c = .text && c ≠ '%'

/-- Read a text: where the reader stands in the end, and how many arguments have
    been taken. -/
def scan : Spot → List Char → Spot × Nat
  | spot, [] => (spot, 0)
  | spot, c :: cs =>
      let (stop, count) := (spot.next c).scan cs
      (stop, count + if spot.takes c then 1 else 0)

theorem scan_cons_of_inside {spot : Spot} {c : Char} (inside : spot.next c ≠ .text) (cs : List Char) :
    spot.scan (c :: cs) = (spot.next c).scan cs := by
  simp [scan, takes, inside]

theorem scan_cons_verb (spot : Spot) {v : Char} (inside : spot ≠ .text)
    (verb : spot.next v = .text) (cs : List Char) :
    spot.scan (v :: cs) =
      ((scan .text cs).1, (scan .text cs).2 + if v = '%' then 0 else 1) := by
  simp [scan, takes, inside, verb]

/-- Digits keep the reader where it is. -/
theorem scan_digits (spot : Spot) (inside : spot ≠ .text)
    (stays : ∀ c, c.isDigit → spot.next c = spot) (cs : List Char) :
    spot.scan cs = spot.scan (number cs).2 := by
  induction cs with
  | nil => rfl
  | cons c cs ih =>
      by_cases digit : c.isDigit
      · have same : (number (c :: cs)).2 = (number cs).2 := List.dropWhile_cons_of_pos digit
        have next := stays c digit
        rw [same, ← ih, scan_cons_of_inside (by rwa [next]), next]
      · have same : (number (c :: cs)).2 = c :: cs := List.dropWhile_cons_of_neg digit
        rw [same]

/-- What reading a directive comes to, by what is left behind it: nothing if it
    is cut off, else the verb and what follows. -/
def Leaves (read : Spot × Nat) : List Char → Prop
  | [] => read.1 ≠ .text ∧ read.2 = 0
  | v :: rest => read = ((scan .text rest).1, (scan .text rest).2 + if v = '%' then 0 else 1)

theorem not_isDigit_of_number {cs rest : List Char} {c : Char} (left : (number cs).2 = c :: rest) :
    c.isDigit = false := by
  have head := List.head?_dropWhile_not Char.isDigit cs
  rw [show cs.dropWhile Char.isDigit = c :: rest from left] at head
  exact head

theorem leaves_point (cs : List Char) : Leaves (scan .point cs) (number cs).2 := by
  rw [scan_digits .point nofun fun c digit => by rw [next, if_pos digit]]
  cases left : (number cs).2 with
  | nil => exact ⟨nofun, rfl⟩
  | cons v rest =>
      have verb : next .point v = .text := by simp [next, not_isDigit_of_number left]
      exact scan_cons_verb .point nofun verb rest

theorem leaves_precision {cs : List Char} (start : ∀ c rest, cs = c :: rest → c.isDigit = false) :
    Leaves (scan .width cs) (precision cs).2 := by
  unfold precision
  split
  · rename_i rest
    rw [scan_cons_of_inside (by decide)]
    exact leaves_point rest
  · rename_i noPoint
    cases cs with
    | nil => exact ⟨nofun, rfl⟩
    | cons v rest =>
        have other : v ≠ '.' := fun same => noPoint rest (by rw [same])
        have verb : next .width v = .text := by simp [next, start v rest rfl, other]
        exact scan_cons_verb .width nofun verb rest

theorem leaves_width (cs : List Char) :
    Leaves (scan .width cs) (precision (number cs).2).2 := by
  rw [scan_digits .width nofun fun c digit => by rw [next, if_pos digit]]
  exact leaves_precision fun c rest => not_isDigit_of_number

theorem leaves_directive (cs : List Char) : Leaves (scan .percent cs) (directive cs).2 := by
  change Leaves _ (precision (number (alignment cs).2).2).2
  unfold alignment
  split
  · rename_i rest
    rw [scan_cons_of_inside (by decide)]
    exact leaves_width rest
  · rename_i noMinus
    cases cs with
    | nil => exact ⟨nofun, rfl⟩
    | cons c rest =>
        -- Without a minus sign the reader might as well be in the width already.
        have other : c ≠ '-' := fun same => noMinus rest (by rw [same])
        have same : next .percent c = next .width c := by simp [next, other]
        have read : scan .percent (c :: rest) = scan .width (c :: rest) := by
          simp [scan, takes, same]
        rw [read]
        exact leaves_width (c :: rest)

end Spot

/-- Whether a template does not end inside a directive. -/
def Complete (template : String) : Prop := (Spot.scan .text template.toList).1 = .text

instance (template : String) : Decidable (Complete template) :=
  inferInstanceAs (Decidable (_ = Spot.text))

/-- How many directives of a template take an argument. -/
def verbs (template : String) : Nat := (Spot.scan .text template.toList).2

/-! ## The parts of a template -/

/-- Whether a part takes an argument. -/
def Segment.isVerb : Segment → Bool
  | .verb _ _ => true
  | _ => false

theorem segments_directive {cs rest : List Char} {d : Directive} {v : Char}
    (read : directive cs = (d, v :: rest)) :
    segments ('%' :: cs) = (if v = '%' then .percent else .verb d v) :: segments rest := by
  rw [segments, if_pos rfl]
  split <;> simp_all

theorem segments_char {c : Char} (plain : c ≠ '%') (cs : List Char) :
    segments (c :: cs) = .char c :: segments cs := by
  rw [segments, if_neg plain]

/-- The two ways of reading a template agree: one ends inside a directive if the
    other finds it cut off, and they find the same verbs. -/
theorem scan_segments (cs : List Char) :
    ((Spot.scan .text cs).1 = .text ↔ .cut ∉ segments cs) ∧
      (Spot.scan .text cs).2 = (segments cs).countP Segment.isVerb := by
  fun_induction segments cs with
  | case1 => simp [Spot.scan]
  | case2 cs d read =>
      have left := Spot.leaves_directive cs
      rw [read] at left
      rw [Spot.scan_cons_of_inside (by decide)]
      exact ⟨iff_of_false left.1 (by simp), left.2⟩
  | case3 cs d v rest read ih =>
      have left := Spot.leaves_directive cs
      rw [read] at left
      rw [Spot.scan_cons_of_inside (by decide)]
      change Spot.scan .percent cs = _ at left
      rw [show Spot.next .text '%' = .percent from rfl, left, ih.2, List.countP_cons]
      split
      · simpa [Segment.isVerb] using ih.1
      · simpa [Segment.isVerb] using ih.1
  | case4 c cs plain ih =>
      simp [Spot.scan, Spot.next, Spot.takes, plain, Segment.isVerb, ih]

/-! ## What follows -/

theorem number_append {cs : List Char} (left : (number cs).2 ≠ []) (ds : List Char) :
    number (cs ++ ds) = ((number cs).1, (number cs).2 ++ ds) := by
  have stops : (cs.takeWhile Char.isDigit).length ≠ cs.length := by
    have whole : cs.takeWhile Char.isDigit ++ (number cs).2 = cs := List.takeWhile_append_dropWhile
    have lengths := congrArg List.length whole
    have more := List.length_pos_iff.mpr left
    rw [List.length_append] at lengths
    omega
  have rest : ¬(cs.dropWhile Char.isDigit).isEmpty := by
    rw [List.isEmpty_iff]
    exact left
  simp only [number, List.takeWhile_append, List.dropWhile_append, if_neg stops, if_neg rest]

theorem alignment_append {cs : List Char} (more : cs ≠ []) (ds : List Char) :
    alignment (cs ++ ds) = ((alignment cs).1, (alignment cs).2 ++ ds) := by
  obtain ⟨c, cs, rfl⟩ := List.exists_cons_of_ne_nil more
  by_cases minus : c = '-'
  · rw [minus]
    rfl
  · simp [alignment, minus]

theorem precision_append {cs : List Char} (left : (precision cs).2 ≠ []) (ds : List Char) :
    precision (cs ++ ds) = ((precision cs).1, (precision cs).2 ++ ds) := by
  cases cs with
  | nil => exact absurd rfl left
  | cons c cs =>
      by_cases point : c = '.'
      · subst point
        change precision ('.' :: (cs ++ ds)) = _
        simp only [precision, number_append left]
      · simp [precision, point]

/-- Each part of a directive is found the same with more text behind it, unless
    the directive is cut off. -/
theorem directive_append {cs : List Char} (left : (directive cs).2 ≠ []) (ds : List Char) :
    directive (cs ++ ds) = ((directive cs).1, (directive cs).2 ++ ds) := by
  have inWidth : (number (alignment cs).2).2 ≠ [] := by
    intro none
    apply left
    simp only [directive, none]
    rfl
  have start : cs ≠ [] := by
    rintro rfl
    exact left rfl
  change (precision (number (alignment cs).2).2).2 ≠ [] at left
  simp only [directive, alignment_append start, number_append inWidth, precision_append left]

theorem segments_append {cs : List Char} (complete : .cut ∉ segments cs) (ds : List Char) :
    segments (cs ++ ds) = segments cs ++ segments ds := by
  fun_induction segments cs with
  | case1 => rfl
  | case2 cs d read => exact absurd List.mem_cons_self complete
  | case3 cs d v rest read ih =>
      have longer : directive (cs ++ ds) = (d, v :: (rest ++ ds)) := by
        rw [directive_append (by simp [read]), read]
        rfl
      rw [List.cons_append, segments_directive longer, List.cons_append]
      rw [ih fun member => complete (List.mem_cons_of_mem _ member)]
  | case4 c cs plain ih =>
      rw [List.cons_append, segments_char plain, List.cons_append]
      rw [ih fun member => complete (List.mem_cons_of_mem _ member)]

/-! ## Arguments -/

namespace Segment

/-- A part of a template in print, with the argument it finds. -/
def text : Segment → Option Arg → String
  | .char c, _ => c.toString
  | .percent, _ => "%"
  | .cut, _ => "%!(NOVERB)"
  | .verb d v, some a => place d v a
  | .verb _ v, none => "%!" ++ v.toString ++ "(MISSING)"

/-- How many arguments a part takes. -/
def need (seg : Segment) : Nat := if seg.isVerb then 1 else 0

end Segment

theorem fill_cons (seg : Segment) (ss : List Segment) (as : List Arg) :
    fill (seg :: ss) as = seg.text as[0]? :: fill ss (as.drop seg.need) := by
  cases seg with
  | char | percent | cut => rfl
  | verb d v =>
      cases as with
      | nil => rfl
      | cons a as => rfl

theorem countP_cons_eq (seg : Segment) (ss : List Segment) :
    (seg :: ss).countP Segment.isVerb = seg.need + ss.countP Segment.isVerb := by
  rw [List.countP_cons, Nat.add_comm]
  rfl

theorem Segment.text_take (seg : Segment) (as : List Arg) (n : Nat) :
    seg.text (as.take (seg.need + n))[0]? = seg.text as[0]? := by
  cases seg with
  | char | percent | cut => rfl
  | verb d v =>
      cases as with
      | nil => simp
      | cons a as => simp [need, isVerb, Nat.add_comm 1]

/-- Parts of a template take as many arguments as there are verbs, and leave the
    rest to the parts behind them. -/
theorem join_fill_append (ss ss' : List Segment) (as : List Arg) :
    String.join (fill (ss ++ ss') as) =
      String.join (fill ss (as.take (ss.countP Segment.isVerb))) ++
        String.join (fill ss' (as.drop (ss.countP Segment.isVerb))) := by
  induction ss generalizing as with
  | nil =>
      change _ = String.join [extra []] ++ _
      simp [extra]
  | cons seg ss ih =>
      rw [List.cons_append, fill_cons, fill_cons, String.join_cons, String.join_cons, ih,
        countP_cons_eq, Segment.text_take, List.drop_take, Nat.add_sub_cancel_left, List.drop_drop,
        String.append_assoc]

/-- Part by part: a verb finds the argument that has as many before it as there
    are verbs before the verb, and the arguments behind the last verb are left. -/
theorem fill_eq_mapIdx (ss : List Segment) (as : List Arg) :
    fill ss as =
      ss.mapIdx (fun i seg => seg.text as[(ss.take i).countP Segment.isVerb]?) ++
        [extra (as.drop (ss.countP Segment.isVerb))] := by
  induction ss generalizing as with
  | nil => rfl
  | cons seg ss ih =>
      rw [fill_cons, ih, List.mapIdx_cons, List.cons_append, countP_cons_eq, List.drop_drop]
      simp only [List.take_succ_cons, countP_cons_eq, List.getElem?_drop]
      rfl

end Treewalk.Template
