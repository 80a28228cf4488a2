import Treewalk.Proofs.Templates

/-! # Printing arguments as they are

A print without a template of its own makes one from the default verb and fills
it. What comes out are the texts of the arguments and the blanks between them: a
percent sign in an argument is not read again, and nothing is put in about
arguments that are missing, left over or of the wrong kind.
-/

namespace Treewalk

/-! ## The default verb -/

namespace Template

mutual
/-- The default verb goes through arrays by itself and ends up with the default
    text. -/
theorem datum?_default (precision : Nat) (d : Datum) : datum? 'v' precision d = some d.text := by
  cases d with
  | int | float | bool | unit => simp [datum?, Datum.text]
  | array elem cells => simp [datum?, Datum.text, data?_default precision cells]

theorem data?_default (precision : Nat) (ds : List Datum) :
    data? 'v' precision ds = some (Datum.texts ds) := by
  cases ds with
  | nil => simp [data?, Datum.texts]
  | cons d ds =>
      simp [data?, Datum.texts, datum?_default precision d, data?_default precision ds]
end

theorem place_default (a : Arg) : place ⟨false, none, none⟩ 'v' a = a.plain := by
  have suits : arg? 'v' 6 a = some a.plain := by
    cases a with
    | text s => rfl
    | datum d => exact datum?_default 6 d
  simp [place, suits, padded]

/-! ## Templates from the front -/

theorem render_nil : render "" [] = "" := by
  simp [render, segments, fill, extra]

theorem join_fill_text {cs : List Char} (plain : '%' ∉ cs) (ds : List Char) (args : List Arg) :
    String.join (fill (segments (cs ++ ds)) args) =
      String.ofList cs ++ String.join (fill (segments ds) args) := by
  induction cs with
  | nil => simp
  | cons c cs ih =>
      rw [List.mem_cons, not_or] at plain
      rw [List.cons_append, segments_char (Ne.symm plain.1), fill, String.join_cons, ih plain.2]
      simp [String.ofList_cons, String.append_assoc]

/-- Text without percent signs stands for itself. -/
theorem render_text {s : String} (plain : '%' ∉ s.toList) (t : String) (args : List Arg) :
    render (s ++ t) args = s ++ render t args := by
  rw [render, String.toList_append, join_fill_text plain, String.ofList_toList]
  rfl

theorem render_default (t : String) (a : Arg) (args : List Arg) :
    render ("%v" ++ t) (a :: args) = a.plain ++ render t args := by
  have parts : segments ("%v" ++ t).toList =
      .verb ⟨false, none, none⟩ 'v' :: segments t.toList := by
    have read : directive ('v' :: t.toList) = (⟨false, none, none⟩, 'v' :: t.toList) := rfl
    rw [String.toList_append]
    exact segments_directive read
  rw [render, parts, fill, String.join_cons, place_default]
  rfl

theorem render_newline : render "\n" [] = "\n" := by
  have read : render ("\n" ++ "") [] = "\n" ++ render "" [] := render_text (by decide) "" []
  simpa [render_nil] using read

theorem forLine_add_two (n : Nat) : forLine (n + 2) = "%v" ++ (" " ++ forLine (n + 1)) := by
  simp only [forLine, Datum.separated, List.replicate_succ, String.append_assoc]

/-- A line shows its arguments with single spaces between them. -/
theorem render_forLine (args : List Arg) :
    render (forLine args.length) args = " ".intercalate (args.map Arg.plain) ++ "\n" := by
  induction args with
  | nil => exact render_newline
  | cons a as ih =>
      cases as with
      | nil =>
          change render ("%v" ++ "\n") [a] = _
          rw [render_default, render_newline]
          simp
      | cons b bs =>
          change render (forLine (bs.length + 1)) (b :: bs) = _ at ih
          change render (forLine (bs.length + 2)) (a :: b :: bs) = _
          rw [forLine_add_two, render_default, render_text (by decide), ih]
          simp [String.append_assoc]

/-- What a print puts between two arguments. -/
def Arg.gap : Arg → Arg → String
  | .datum _, .datum _ => " "
  | _, _ => ""

/-- Arguments next to each other, with the gaps between them. -/
def abreast : List Arg → String
  | [] => ""
  | [a] => a.plain
  | a :: b :: as => a.plain ++ a.gap b ++ abreast (b :: as)

theorem forPrint_cons_cons (a b : Arg) (as : List Arg) :
    forPrint (a :: b :: as) = "%v" ++ (a.gap b ++ forPrint (b :: as)) := by
  have verb : (if a.isText || b.isText then "%v" else "%v ") = "%v" ++ a.gap b := by
    cases a <;> cases b <;> simp [Arg.isText, Arg.gap]
  rw [forPrint, verb, String.append_assoc]

theorem percent_not_mem_gap (a b : Arg) : '%' ∉ (a.gap b).toList := by
  cases a <;> cases b <;> simp [Arg.gap]

/-- A print shows its arguments with a space between two that are no string
    literals. -/
theorem render_forPrint (args : List Arg) : render (forPrint args) args = abreast args := by
  induction args with
  | nil => exact render_nil
  | cons a as ih =>
      cases as with
      | nil =>
          change render ("%v" ++ "") [a] = a.plain
          rw [render_default, render_nil, String.append_empty]
      | cons b bs =>
          rw [forPrint_cons_cons, render_default, render_text (percent_not_mem_gap a b), ih,
            abreast, String.append_assoc]

end Template

/-! ## Percent signs

All the notes on arguments that do not suit their template begin with a percent
sign. Values have none in their texts, so the ones in print can be counted.
-/

theorem ne_percent {c : Char} (digit : c.isDigit) : c ≠ '%' := by
  rintro rfl
  simp at digit

theorem percent_not_mem_toDigits (n : Nat) : '%' ∉ Nat.toDigits 10 n :=
  fun mem => ne_percent (Nat.isDigit_of_mem_toDigits (by decide) (by decide) mem) rfl

namespace Decimal

theorem percent_not_mem_zeros (n : Nat) : '%' ∉ zeros n := by
  simp [zeros]

theorem Digits.percent_not_mem_ofScaled (coeff : Nat) (unit : Int) :
    '%' ∉ (Digits.ofScaled coeff unit).digits := by
  intro mem
  have kept := (List.dropWhile_sublist _).subset (List.mem_reverse.mp mem)
  exact percent_not_mem_toDigits coeff (List.mem_reverse.mp kept)

theorem Binary.percent_not_mem_search (v : Binary) (n : Nat) : '%' ∉ (v.search n).digits := by
  induction n with
  | zero => exact Digits.percent_not_mem_ofScaled _ _
  | succ n ih =>
      rw [search]
      split
      · exact Digits.percent_not_mem_ofScaled _ _
      · exact ih

theorem Digits.percent_not_mem_positional {d : Digits} (plain : '%' ∉ d.digits) :
    '%' ∉ d.positional.toList := by
  have before (n : Nat) : '%' ∉ d.digits.take n := fun mem => plain (List.mem_of_mem_take mem)
  have behind (n : Nat) : '%' ∉ d.digits.drop n := fun mem => plain (List.mem_of_mem_drop mem)
  unfold positional
  split
  · simp [plain, percent_not_mem_zeros]
  · dsimp only
    split
    · simp [plain, percent_not_mem_zeros]
    · simp [before, behind]

theorem Digits.percent_not_mem_mantissa {d : Digits} (plain : '%' ∉ d.digits) :
    '%' ∉ d.mantissa.toList := by
  unfold mantissa
  split <;> simp_all

theorem percent_not_mem_sign (neg : Bool) : '%' ∉ (sign neg).toList := by
  cases neg <;> decide

end Decimal

namespace FloatText

open Decimal

theorem percent_not_mem_exponent (e : Int) : '%' ∉ (exponent e).toList := by
  have digits := percent_not_mem_toDigits e.natAbs
  unfold exponent
  split <;> simp [paddedDigits, percent_not_mem_zeros, digits]

theorem percent_not_mem_plain (x : Float32) : '%' ∉ (plain x).toList := by
  unfold plain
  cases Reading.ofFloat32 x with
  | nan => decide
  | infinite neg => cases neg <;> decide
  | finite neg v =>
      have digits := v.percent_not_mem_search v.height
      simp only [String.toList_append, List.mem_append, not_or]
      refine ⟨percent_not_mem_sign neg, ?_⟩
      split
      · decide
      · unfold unsigned
        split
        · exact Digits.percent_not_mem_positional digits
        · simp [Digits.percent_not_mem_mantissa digits, percent_not_mem_exponent, Binary.shortest]

end FloatText

namespace Datum

theorem percent_not_mem_separated {sep : String} {ss : List String} (inside : '%' ∉ sep.toList)
    (each : ∀ s ∈ ss, '%' ∉ s.toList) : '%' ∉ (separated sep ss).toList := by
  fun_induction separated sep ss with
  | case1 => decide
  | case2 s => exact each s (by simp)
  | case3 s ss more ih =>
      have first := each s (by simp)
      have rest := ih fun s mem => each s (List.mem_cons_of_mem _ mem)
      simp [first, inside, rest]

theorem percent_not_mem_int (n : Int) : '%' ∉ (toString n).toList := by
  rw [Int.toString_eq_repr, Int.repr_eq_if]
  split <;> simp [Nat.toList_repr, percent_not_mem_toDigits]

mutual
theorem percent_not_mem_text (d : Datum) : '%' ∉ d.text.toList := by
  cases d with
  | int n => exact percent_not_mem_int n.toInt
  | float x => exact FloatText.percent_not_mem_plain x
  | bool b => cases b <;> decide
  | unit => decide
  | array elem cells =>
      have inside : '%' ∉ (separated " " (texts cells)).toList :=
        percent_not_mem_separated (by decide) (percent_not_mem_texts cells)
      simp [text, inside]

theorem percent_not_mem_texts (ds : List Datum) : ∀ s ∈ texts ds, '%' ∉ s.toList := by
  cases ds with
  | nil => simp [texts]
  | cons d ds =>
      intro s mem
      rw [texts, List.mem_cons] at mem
      obtain rfl | mem := mem
      · exact percent_not_mem_text d
      · exact percent_not_mem_texts ds s mem
end

end Datum

namespace Template

/-- How many percent signs stand in a text. -/
def percents (s : String) : Nat := s.toList.count '%'

theorem percents_append (s t : String) : percents (s ++ t) = percents s + percents t := by
  simp [percents]

/-- The percent signs in string literals among arguments. -/
def literalPercents : List Arg → Nat
  | [] => 0
  | .text s :: as => percents s + literalPercents as
  | .datum _ :: as => literalPercents as

theorem literalPercents_cons (a : Arg) (as : List Arg) :
    literalPercents (a :: as) = percents a.plain + literalPercents as := by
  cases a with
  | text s => rfl
  | datum d =>
      have none : percents d.text = 0 := List.count_eq_zero.mpr d.percent_not_mem_text
      simp [literalPercents, Arg.plain, none]

theorem percents_abreast (args : List Arg) : percents (abreast args) = literalPercents args := by
  induction args with
  | nil => rfl
  | cons a as ih =>
      rw [literalPercents_cons, ← ih]
      cases as with
      | nil => rfl
      | cons b bs =>
          have gap : percents (a.gap b) = 0 := List.count_eq_zero.mpr (percent_not_mem_gap a b)
          simp [abreast, percents_append, gap]

theorem percents_intercalate (args : List Arg) :
    percents (" ".intercalate (args.map Arg.plain)) = literalPercents args := by
  induction args with
  | nil => rfl
  | cons a as ih =>
      rw [literalPercents_cons, ← ih]
      cases as with
      | nil => simp [percents]
      | cons b bs => simp [percents]

/-- Both prints show every argument as it is. A line has single spaces between
    them and ends; otherwise there is a space only between two arguments that are
    no string literals. All percent signs, and so all notes that begin with one,
    are in the string literals. -/
theorem prints_verbatim (args : List Arg) :
    render (forLine args.length) args = " ".intercalate (args.map Arg.plain) ++ "\n" ∧
    render (forPrint args) args = abreast args ∧
    percents (render (forLine args.length) args) = literalPercents args ∧
    percents (render (forPrint args) args) = literalPercents args := by
  have line := render_forLine args
  have print := render_forPrint args
  refine ⟨line, print, ?_, ?_⟩
  · rw [line, percents_append, percents_intercalate]
    rfl
  · rw [print, percents_abreast]

example :
    let args : List Arg := [.text "5%d", .datum (.int 1), .datum (.array .int [.int 2, .bool true])]
    render (forPrint args) args = "5%d1 [2 true]" ∧
      render (forLine args.length) args = "5%d 1 [2 true]\n" := by
  decide +kernel

end Template

end Treewalk
