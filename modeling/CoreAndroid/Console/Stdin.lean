import CoreAndroid.Lib.Casts
import CoreAndroid.Lib.Delimited

/-! Reading a line in console_android.c. A write or a read outside the buffer is `none`, and so
is a call of `fgets` for which the C standard says nothing. -/
namespace CoreAndroid.Console
open Delimited

section Source

def newline : UInt8 := 10

/-- `fgets`, with the buffer and the rest of the input that it leaves. -/
def fgets (inbuf : List UInt8) (n : Int) (stdin : List UInt8) : Option (List UInt8 × List UInt8) :=
  if n < 1 then none
  else if stdin = [] then some (inbuf, stdin)
  else
    let read := readThrough newline (n.toNat - 1) stdin
    if read.length < inbuf.length then
      some (read ++ 0 :: inbuf.drop (read.length + 1), stdin.drop read.length)
    else none

variable (strlen : List UInt8 → Option UInt64)

/-- What `ofc_read_stdin_impl` does after `fgets`. -/
def cutNewline (inbuf : List UInt8) (len : UInt64) : Option (List UInt8) := do
  let length ← strlen inbuf
  let len ← if length < len then strlen inbuf else some len
  if (len - 1).toNat < inbuf.length then some (inbuf.set (len - 1).toNat 0) else none

def ofcReadStdinImpl (inbuf : List UInt8) (len : UInt64) (stdin : List UInt8) :
    Option (List UInt8 × List UInt8) := do
  let (inbuf, stdin) ← fgets inbuf (toInt len) stdin
  let inbuf ← cutNewline strlen inbuf len
  return (inbuf, stdin)

end Source

section Spec
variable (strlen : List UInt8 → Option UInt64)

def Measures : Prop := ∀ inbuf, strlen inbuf =
  if 0 ∈ inbuf then some (UInt64.ofNat (inbuf.idxOf 0)) else none

/-- The call stays inside the buffer and leaves the next line in it, cut to what the buffer
holds; at most the newline is missing from what was read. -/
def ReadsLine (inbuf : List UInt8) (len : UInt64) (stdin : List UInt8) : Prop :=
  ∃ inbuf' stdin', ofcReadStdinImpl strlen inbuf len stdin = some (inbuf', stdin') ∧
    0 ∈ inbuf' ∧ upTo 0 inbuf' = (upTo newline stdin).take (len.toNat - 1) ∧
    ∃ read, stdin = read ++ stdin' ∧
      (read = upTo 0 inbuf' ∨ read = upTo 0 inbuf' ++ [newline])

/-- The next line ends with a newline that fits in the buffer as well, or there is no more
input and the buffer holds a single character. -/
def Fits (inbuf : List UInt8) (len : UInt64) (stdin : List UInt8) : Prop :=
  newline ∈ stdin ∧ (upTo newline stdin).length + 2 ≤ toInt len ∨
    stdin = [] ∧ 1 ≤ toInt len ∧ ∃ c ≠ 0, [c, 0] <+: inbuf

end Spec

section Proofs
variable {strlen : List UInt8 → Option UInt64} {inbuf stdin text tail : List UInt8} {len : UInt64}

theorem cutNewline_eq (hstrlen : Measures strlen) (htext : 0 ∉ text)
    (hbuf : (text ++ 0 :: tail).length = len.toNat) :
    cutNewline strlen (text ++ 0 :: tail) len =
      if text = [] then none else some (text.dropLast ++ 0 :: 0 :: tail) := by
  have hlength : text.length < len.toNat := by
    rw [← hbuf]
    simp
  have hmeasure : strlen (text ++ 0 :: tail) = some (UInt64.ofNat text.length) := by
    rw [hstrlen, if_pos (by simp), idxOf_append htext]
  have htoNat : (UInt64.ofNat text.length).toNat = text.length :=
    UInt64.toNat_ofNat_of_lt (lt_trans hlength len.toNat_lt)
  have hshort : UInt64.ofNat text.length < len := by
    rw [UInt64.lt_iff_toNat_lt, htoNat]
    exact hlength
  simp only [cutNewline, hmeasure, Option.bind_eq_bind, Option.bind_some, hshort, if_true]
  rcases List.eq_nil_or_concat' text with rfl | ⟨init, c, rfl⟩
  · have houtside : ¬ (UInt64.ofNat ([] : List UInt8).length - 1).toNat <
        ([] ++ 0 :: tail).length := by
      rw [hbuf]
      exact not_lt.mpr (Nat.le_of_lt_succ len.toNat_lt)
    rw [if_neg houtside]
    rfl
  · have hplace : (UInt64.ofNat (init ++ [c]).length - 1).toNat = init.length := by
      rw [UInt64.toNat_sub_of_le _ _ (by
        rw [UInt64.le_iff_toNat_le, htoNat]
        simp), htoNat]
      simp
    rw [hplace, if_pos (by simp), if_neg (by simp)]
    simp

theorem fgets_eq {n : Int} (hlen : 1 ≤ n) (hstdin : stdin ≠ []) {read : List UInt8}
    (hread : read = readThrough newline (n.toNat - 1) stdin) (hfits : read.length < inbuf.length) :
    fgets inbuf n stdin =
      some (read ++ 0 :: inbuf.drop (read.length + 1), stdin.drop read.length) := by
  have hdefined : ¬ n < 1 := Int.not_lt.mpr hlen
  simp only [fgets, hdefined, hstdin, if_false, ← hread, hfits, if_true]

theorem readStdin_eq (hstrlen : Measures strlen) (hbuf : inbuf.length = len.toNat)
    (hzero : 0 ∉ stdin) (hlen : 1 ≤ toInt len) (hstdin : stdin ≠ []) {read : List UInt8}
    (hread : read = readThrough newline ((toInt len).toNat - 1) stdin) :
    ofcReadStdinImpl strlen inbuf len stdin =
      if read = [] then none
      else some (read.dropLast ++ 0 :: 0 :: inbuf.drop (read.length + 1),
        stdin.drop read.length) := by
  have hle := toInt_le len
  have hlimit : read.length ≤ (toInt len).toNat - 1 := hread ▸ readThrough_length_le _ stdin
  have hfits : read.length < inbuf.length := by omega
  have hzero' : 0 ∉ read := by
    intro h
    rw [hread] at h
    exact hzero ((readThrough_isPrefix _ stdin).subset h)
  have hbuf' : (read ++ 0 :: inbuf.drop (read.length + 1)).length = len.toNat := by
    rw [List.length_append, List.length_cons, List.length_drop]
    omega
  unfold ofcReadStdinImpl
  rw [fgets_eq hlen hstdin hread hfits]
  simp only [Option.bind_eq_bind, Option.bind_some, cutNewline_eq hstrlen hzero' hbuf']
  split <;> rfl

theorem readsLine_input_iff (hstrlen : Measures strlen) (hbuf : inbuf.length = len.toNat)
    (hzero : 0 ∉ stdin) (hlen : 1 ≤ toInt len) (hstdin : stdin ≠ []) :
    ReadsLine strlen inbuf len stdin ↔
      newline ∈ stdin ∧ (upTo newline stdin).length + 2 ≤ toInt len := by
  have hle := toInt_le len
  have hline : 0 ∉ upTo newline stdin := fun h =>
    hzero ((List.takeWhile_prefix _).subset h)
  have hread := readThrough_eq (d := newline) ((toInt len).toNat - 1) stdin
  have himpl := readStdin_eq hstrlen hbuf hzero hlen hstdin rfl
  have hsplit := List.prefix_iff_eq_append.mp
    (readThrough_isPrefix (d := newline) ((toInt len).toNat - 1) stdin)
  by_cases hfits : newline ∈ stdin ∧ (upTo newline stdin).length < (toInt len).toNat - 1
  · rw [if_pos hfits] at hread
    rw [hread, if_neg (by simp), List.dropLast_concat] at himpl
    refine iff_of_true ⟨_, _, himpl, by simp, ?_, upTo newline stdin ++ [newline], ?_, .inr ?_⟩
      ⟨hfits.1, by omega⟩
    · rw [upTo_append hline, List.take_of_length_le (by omega)]
    · rw [hread] at hsplit
      exact hsplit.symm
    · rw [upTo_append hline]
  · rw [if_neg hfits] at hread
    refine iff_of_false ?_ fun h => hfits ⟨h.1, by omega⟩
    rintro ⟨inbuf', stdin', hsome, -, htext, -⟩
    rw [himpl, hread] at hsome
    obtain ⟨hne, hsome⟩ := Option.ite_none_left_eq_some.mp hsome
    obtain ⟨rfl, -⟩ := Prod.mk.inj (Option.some.inj hsome)
    -- a character of the line was overwritten
    have hpart : 0 ∉ ((upTo newline stdin).take ((toInt len).toNat - 1)).dropLast := fun h =>
      hline (List.mem_of_mem_take (List.dropLast_subset _ h))
    rw [upTo_append hpart] at htext
    have hlength := congrArg List.length htext
    have hpos := List.length_pos_iff.mpr hne
    simp only [List.length_dropLast, List.length_take] at hlength hpos
    omega

theorem readsLine_end_iff (hstrlen : Measures strlen) (hbuf : inbuf.length = len.toNat)
    (hlen : 1 ≤ toInt len) :
    ReadsLine strlen inbuf len [] ↔ ∃ c ≠ 0, [c, 0] <+: inbuf := by
  have hdefined : ¬ toInt len < 1 := Int.not_lt.mpr hlen
  have hfgets : fgets inbuf (toInt len) [] = some (inbuf, []) := by
    simp only [fgets, hdefined, if_false, if_true]
  have himpl : ofcReadStdinImpl strlen inbuf len [] =
      (cutNewline strlen inbuf len).map fun inbuf => (inbuf, []) := by
    simp only [ofcReadStdinImpl, hfgets, Option.bind_eq_bind, Option.bind_some]
    rw [Option.map_eq_bind]
    rfl
  unfold ReadsLine
  rw [himpl]
  by_cases hterminated : 0 ∈ inbuf
  · obtain ⟨text, tail, rfl, hzero⟩ := List.eq_append_cons_of_mem hterminated
    rw [cutNewline_eq hstrlen hzero hbuf]
    rcases text with _ | ⟨c, _ | ⟨d, text⟩⟩
    · simp [List.cons_prefix_cons]
    · have hc : c ≠ 0 := fun h => hzero (h ▸ List.mem_singleton_self c)
      refine iff_of_true ⟨0 :: 0 :: tail, [], rfl, by simp, ?_, [], rfl, .inl ?_⟩
        ⟨c, hc, List.prefix_append [c, 0] tail⟩
      · rw [upTo_cons_self]
        exact List.take_nil.symm
      · exact (upTo_cons_self _).symm
    · have hpart : 0 ∉ (c :: d :: text).dropLast := fun h => hzero (List.dropLast_subset _ h)
      refine iff_of_false ?_ ?_
      · rintro ⟨inbuf', stdin', hsome, -, htext, -⟩
        rw [if_neg (List.cons_ne_nil _ _), Option.map_some] at hsome
        obtain ⟨rfl, -⟩ := Prod.mk.inj (Option.some.inj hsome)
        rw [upTo_append hpart, show upTo newline [] = [] from rfl, List.take_nil] at htext
        cases htext
      · rintro ⟨c', -, hstart⟩
        simp only [List.cons_append, List.cons_prefix_cons] at hstart
        exact hzero (by simp [← hstart.2.1])
  · have hcut : cutNewline strlen inbuf len = none := by
      simp only [cutNewline, hstrlen inbuf, hterminated, if_false]
      rfl
    rw [hcut]
    refine iff_of_false ?_ ?_
    · rintro ⟨_, _, hsome, -⟩
      cases hsome
    · rintro ⟨c, -, hstart⟩
      exact hterminated (hstart.subset (by simp))

end Proofs

/-- A line is read safely and whole exactly if its newline is read with it; at the end of the
input that takes an old text of one character. -/
theorem line_read_iff {strlen : List UInt8 → Option UInt64} (hstrlen : Measures strlen)
    {inbuf stdin : List UInt8} {len : UInt64} (hbuf : inbuf.length = len.toNat)
    (hzero : 0 ∉ stdin) : ReadsLine strlen inbuf len stdin ↔ Fits inbuf len stdin := by
  by_cases hlen : 1 ≤ toInt len
  · by_cases hstdin : stdin = []
    · subst hstdin
      rw [readsLine_end_iff hstrlen hbuf hlen]
      simp [Fits, hlen]
    · rw [readsLine_input_iff hstrlen hbuf hzero hlen hstdin]
      simp [Fits, hstdin]
  · refine iff_of_false ?_ ?_
    · rintro ⟨_, _, hsome, -⟩
      have hundefined : toInt len < 1 := Int.not_le.mp hlen
      simp only [ofcReadStdinImpl, fgets, hundefined, if_true] at hsome
      cases hsome
    · rintro (⟨-, hroom⟩ | ⟨-, hlen', -⟩)
      · omega
      · exact hlen hlen'

def cStrlen (inbuf : List UInt8) : Option UInt64 :=
  if 0 ∈ inbuf then some (UInt64.ofNat (inbuf.idxOf 0)) else none

theorem line_read_short : ReadsLine cStrlen [7, 7, 7, 7] 4 [97, newline, 98] :=
  (line_read_iff (fun _ => rfl) rfl (by decide)).mpr (.inl (by decide))

/-- A last line without a newline loses its last character. -/
theorem last_line_cut : ofcReadStdinImpl cStrlen [7, 7, 7, 7, 7, 7] 6 [97, 98, 99] =
      some ([97, 98, 0, 0, 7, 7], []) ∧
    ¬ ReadsLine cStrlen [7, 7, 7, 7, 7, 7] 6 [97, 98, 99] := by
  have hrun : ofcReadStdinImpl cStrlen [7, 7, 7, 7, 7, 7] 6 [97, 98, 99] =
      some ([97, 98, 0, 0, 7, 7], []) := by decide
  refine ⟨hrun, ?_⟩
  rintro ⟨inbuf', stdin', hsome, -, htext, -⟩
  rw [hrun] at hsome
  obtain ⟨rfl, -⟩ := Prod.mk.inj (Option.some.inj hsome)
  revert htext
  decide

end CoreAndroid.Console
