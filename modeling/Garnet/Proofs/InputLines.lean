import Garnet.Proofs.Tiling
import Garnet.Repl

/-!
# The lines of an input

The interactive loop takes its input apart before it knows whether that is a text: it
cuts bytes at line feeds, and each line is a text by itself, or none. This module
says what that comes to for texts. The byte of a line feed occurs in no other
character, so the lines of the bytes are those of the characters: they are what the
line ends separate, where nothing after the last line end is no line
(`lines_toUTF8`). Whole lines do not depend on what follows them (`lines_append`),
and bytes that are no text make a line that is none (`lines_of_notText`).
-/

namespace Garnet.Repl

/-! ## The lines of a text -/

/-- **The lines of a text**, without their line ends. A line end at the very end does
not begin another line. -/
def textLines (text : List Char) : List (List Char) :=
  if (text.splitOn '\n').getLast? = some [] then (text.splitOn '\n').dropLast
  else text.splitOn '\n'

section TextLines

variable {c : Char} {text : List Char}

theorem textLines_newline (text : List Char) : textLines ('\n' :: text) = [] :: textLines text := by
  have hsplit : ('\n' :: text).splitOn '\n' = [] :: text.splitOn '\n' := by
    rw [List.splitOn_cons_eq_if_modifyHead, if_pos (beq_self_eq_true '\n')]
  unfold textLines
  rw [hsplit, List.getLast?_cons_of_ne_nil (List.splitOn_ne_nil _ _),
    List.dropLast_cons_of_ne_nil (List.splitOn_ne_nil _ _)]
  split <;> rfl

theorem textLines_cons (hc : c ≠ '\n') (text : List Char) :
    textLines (c :: text) = match textLines text with
      | [] => [[c]]
      | line :: lines => (c :: line) :: lines := by
  have hsplit : (c :: text).splitOn '\n' = (text.splitOn '\n').modifyHead (List.cons c) := by
    rw [List.splitOn_cons_eq_if_modifyHead, if_neg (by simpa using hc)]
  unfold textLines
  rw [hsplit]
  cases h : text.splitOn '\n' with
  | nil => exact absurd h (List.splitOn_ne_nil _ _)
  | cons piece pieces =>
    cases pieces with
    | nil => cases piece <;> rfl
    | cons next pieces =>
      simp only [List.modifyHead_cons, List.getLast?_cons_cons, List.dropLast_cons_cons]
      split <;> rfl

end TextLines

/-- **A line as the loop takes it**: without the white space around it. -/
def trimmed (line : List Char) : String :=
  String.ofList (Text.trim line)

theorem trimmed_newline (line : List Char) : trimmed (line ++ ['\n']) = trimmed line := by
  unfold trimmed Text.trim Text.dropEndWhile
  rw [List.dropWhile_append]
  split
  · next hempty =>
    rw [List.isEmpty_iff.mp hempty]
    rfl
  · rw [List.reverse_append]
    exact congrArg String.ofList (congrArg List.reverse (List.dropWhile_cons_of_pos (by decide)))

/-- The lines of a text as the loop takes them. -/
def takenLines (text : String) : List String :=
  (textLines text.toList).map trimmed

/-! ## Bytes and characters -/

/-- The loop over the bytes of an array has collected those before a place, the last one
first. -/
theorem toList_loop (bytes : ByteArray) (i : Nat) (collected : List UInt8) :
    ByteArray.toList.loop bytes i collected
      = collected.reverse ++ bytes.data.toList.drop i := by
  fun_induction ByteArray.toList.loop bytes i collected with
  | case1 i collected hi ih =>
    have hlength : i < bytes.data.toList.length := hi
    rw [ih, List.drop_eq_getElem_cons hlength, List.reverse_cons, List.append_assoc]
    have hget : bytes.get! i = bytes.data.toList[i] := getElem!_pos bytes.data i hi
    rw [hget, List.singleton_append]
  | case2 i collected hi =>
    have hlength : bytes.data.toList.length ≤ i := Nat.le_of_not_lt hi
    rw [List.drop_eq_nil_of_le hlength, List.append_nil]

/-- The bytes of an array, one after the other. -/
theorem toList_eq (bytes : ByteArray) : bytes.toList = bytes.data.toList :=
  toList_loop bytes 0 []

theorem toList_append (bytes rest : ByteArray) :
    (bytes ++ rest).toList = bytes.toList ++ rest.toList := by
  rw [toList_eq, toList_eq, toList_eq, ByteArray.data_append, Array.toList_append]

/-- The bytes of a text. -/
def encoded (text : List Char) : List UInt8 :=
  text.flatMap String.utf8EncodeChar

theorem toList_toUTF8 (text : String) : text.toUTF8.toList = encoded text.toList :=
  (toList_eq _).trans (data_toUTF8 text)

/-- What a text is decoded from are its bytes. -/
theorem eq_encoded_of_fromUTF8? {bytes : List UInt8} {text : String}
    (h : String.fromUTF8? ⟨bytes.toArray⟩ = some text) : bytes = encoded text.toList := by
  unfold String.fromUTF8? at h
  split at h
  · obtain rfl := Option.some.inj h
    rw [← toList_toUTF8]
    exact (toList_eq ⟨bytes.toArray⟩).symm
  · cases h

theorem fromUTF8?_encoded (text : List Char) :
    String.fromUTF8? ⟨(encoded text).toArray⟩ = some (String.ofList text) := by
  have hbytes : (⟨(encoded text).toArray⟩ : ByteArray) = text.utf8Encode := by
    refine ByteArray.ext (Array.toList_inj.mp ?_)
    rw [List.utf8Encode, List.toList_data_toByteArray]
    rfl
  have hvalid : (⟨(encoded text).toArray⟩ : ByteArray).IsValidUTF8 := ⟨text, hbytes⟩
  unfold String.fromUTF8?
  rw [dif_pos hvalid]
  exact congrArg some (String.toByteArray_inj.mp hbytes)

/-- Bytes that are no text are none with a line feed after them. -/
theorem fromUTF8?_newline {bytes : List UInt8} (h : String.fromUTF8? ⟨bytes.toArray⟩ = none) :
    String.fromUTF8? ⟨(bytes ++ [10]).toArray⟩ = none := by
  by_contra hsome
  obtain ⟨text, htext⟩ := Option.ne_none_iff_exists'.mp hsome
  have hbytes := eq_encoded_of_fromUTF8? htext
  obtain hnil | ⟨init, c, hinit⟩ := List.eq_nil_or_concat' text.toList
  · rw [hnil] at hbytes
    exact List.append_ne_nil_of_right_ne_nil _ (List.cons_ne_nil _ _) hbytes
  · -- the last character is the line feed, and the bytes are those of the others
    rw [hinit, encoded, List.flatMap_append, List.flatMap_singleton] at hbytes
    have hlast : (10 : UInt8) ∈ String.utf8EncodeChar c := by
      have hne : String.utf8EncodeChar c ≠ [] := String.utf8EncodeChar_ne_nil
      have hget := congrArg List.getLast? hbytes
      rw [List.getLast?_concat, List.getLast?_append_of_ne_nil _ hne] at hget
      exact List.mem_of_getLast? hget.symm
    obtain rfl := eq_newline_of_mem hlast
    have hinit : bytes = encoded init := (List.append_inj' hbytes rfl).1
    rw [hinit, fromUTF8?_encoded] at h
    cases h

/-! ## Lines of bytes -/

theorem byteLines_newline (bytes : List UInt8) :
    byteLines (10 :: bytes) = [10] :: byteLines bytes :=
  if_pos rfl

theorem byteLines_cons {b : UInt8} (hb : b ≠ 10) (bytes : List UInt8) :
    byteLines (b :: bytes) = match byteLines bytes with
      | [] => [[b]]
      | line :: lines => (b :: line) :: lines :=
  if_neg hb

theorem byteLines_ne_nil {bytes : List UInt8} (h : bytes ≠ []) : byteLines bytes ≠ [] := by
  cases bytes with
  | nil => exact absurd rfl h
  | cons b bytes =>
    by_cases hb : b = 10
    · subst hb
      exact List.cons_ne_nil _ _
    · rw [byteLines_cons hb]
      split <;> exact List.cons_ne_nil _ _

/-- Bytes without a line feed belong to the line after them. -/
theorem byteLines_append_of_notMem {bytes : List UInt8} (hne : bytes ≠ [])
    (h : (10 : UInt8) ∉ bytes) (rest : List UInt8) :
    byteLines (bytes ++ rest) = match byteLines rest with
      | [] => [bytes]
      | line :: lines => (bytes ++ line) :: lines := by
  induction bytes with
  | nil => exact absurd rfl hne
  | cons b bytes ih =>
    obtain ⟨hb, hbytes⟩ := List.ne_and_not_mem_of_not_mem_cons h
    rw [List.cons_append, byteLines_cons (Ne.symm hb)]
    cases bytes with
    | nil => rfl
    | cons b' bytes =>
      rw [ih (List.cons_ne_nil _ _) hbytes]
      cases byteLines rest <;> rfl

/-- **Whole lines** are not changed by what follows. -/
theorem byteLines_append {bytes : List UInt8} (h : ∀ b, bytes.getLast? = some b → b = 10)
    (rest : List UInt8) : byteLines (bytes ++ rest) = byteLines bytes ++ byteLines rest := by
  induction bytes with
  | nil => rfl
  | cons b bytes ih =>
    cases bytes with
    | nil =>
      obtain rfl := h b rfl
      exact byteLines_newline rest
    | cons b' bytes =>
      have ih := ih fun c hc => h c ((List.getLast?_cons_cons).trans hc)
      by_cases hb : b = 10
      · subst hb
        rw [List.cons_append, byteLines_newline, byteLines_newline, ih]
        rfl
      · rw [List.cons_append, byteLines_cons hb, byteLines_cons hb, ih]
        -- there is a line to which the byte belongs
        cases hlines : byteLines (b' :: bytes) with
        | nil => exact absurd hlines (byteLines_ne_nil (List.cons_ne_nil _ _))
        | cons => rfl

/-- **The lines of the bytes of a text** are the lines of the text, with their line
ends. -/
theorem exists_byteLines_encoded (text : List Char) : ∃ lines : List (List Char),
    byteLines (encoded text) = lines.map encoded ∧
      List.Forall₂ (fun whole line => whole = line ∨ whole = line ++ ['\n']) lines
        (textLines text) := by
  induction text with
  | nil => exact ⟨[], rfl, .nil⟩
  | cons c text ih =>
    obtain ⟨lines, hlines, hends⟩ := ih
    have hencoded : encoded (c :: text) = String.utf8EncodeChar c ++ encoded text :=
      List.flatMap_cons
    rw [hencoded]
    by_cases hc : c = '\n'
    · subst hc
      refine ⟨['\n'] :: lines, ?_, ?_⟩
      · exact (byteLines_newline _).trans (congrArg _ hlines)
      · rw [textLines_newline]
        exact .cons (.inr rfl) hends
    · have hnewline : (10 : UInt8) ∉ String.utf8EncodeChar c := fun h => hc (eq_newline_of_mem h)
      rw [byteLines_append_of_notMem String.utf8EncodeChar_ne_nil hnewline, hlines,
        textLines_cons hc]
      generalize textLines text = plain at hends ⊢
      cases hends with
      | nil => exact ⟨[[c]], by simp [encoded], .cons (.inl rfl) .nil⟩
      | @cons whole line lines rest hend hends =>
        refine ⟨(c :: whole) :: lines, by simp [encoded], .cons ?_ hends⟩
        exact hend.imp (congrArg (c :: ·)) (congrArg (c :: ·))

/-! ## Lines of an input -/

/-- **The lines of a text** are what the loop takes from its bytes. -/
theorem lines_toUTF8 (text : String) : ∃ lines : List String,
    Repl.lines text.toUTF8 = lines.map some ∧
      lines.map (fun line => trimmed line.toList) = takenLines text := by
  obtain ⟨lines, hlines, hends⟩ := exists_byteLines_encoded text.toList
  refine ⟨lines.map String.ofList, ?_, ?_⟩
  · rw [Repl.lines, toList_toUTF8, hlines, List.map_map, List.map_map]
    exact List.map_congr_left fun line _ => fromUTF8?_encoded line
  · rw [List.map_map, takenLines]
    refine List.forall₂_eq_eq_eq ▸
      List.forall₂_map_left_iff.mpr (List.forall₂_map_right_iff.mpr ?_)
    refine hends.imp fun whole line hend => ?_
    show trimmed (String.ofList whole).toList = trimmed line
    rw [String.toList_ofList]
    obtain rfl | rfl := hend
    · rfl
    · exact trimmed_newline line

/-- Whether a text consists of whole lines. -/
def IsWhole (text : String) : Prop :=
  ∀ c, text.toList.getLast? = some c → c = '\n'

/-- **Whole lines** are taken as they are, whatever bytes follow. -/
theorem lines_append {text : String} (h : IsWhole text) (bytes : ByteArray) :
    Repl.lines (text.toUTF8 ++ bytes) = Repl.lines text.toUTF8 ++ Repl.lines bytes := by
  have hlast : ∀ b, text.toUTF8.toList.getLast? = some b → b = 10 := by
    rw [toList_toUTF8]
    obtain hnil | ⟨init, c, hinit⟩ := List.eq_nil_or_concat' text.toList
    · rw [hnil]
      exact fun b hb => by cases hb
    · obtain rfl : c = '\n' := h c (by rw [hinit, List.getLast?_concat])
      intro b hb
      rw [hinit, encoded, List.flatMap_append, List.flatMap_singleton] at hb
      exact Option.some.inj (hb.symm.trans List.getLast?_concat)
  rw [Repl.lines, toList_append, byteLines_append hlast, List.map_append]
  rfl

/-- **A line that is no text**: bytes that are none, up to a line feed or to the end of
the input. -/
theorem lines_of_notText {bytes rest : ByteArray} (h : String.fromUTF8? bytes = none)
    (hnewline : (10 : UInt8) ∉ bytes.toList)
    (hrest : ∀ b, rest.toList.head? = some b → b = 10) :
    ∃ more, Repl.lines (bytes ++ rest) = none :: more := by
  have hbytes : (⟨bytes.toList.toArray⟩ : ByteArray) = bytes := by
    rw [toList_eq, Array.toArray_toList]
  have hne : bytes.toList ≠ [] := by
    intro hnil
    rw [← hbytes, hnil] at h
    cases (fromUTF8?_encoded []).symm.trans h
  rw [← hbytes] at h
  rw [Repl.lines, toList_append, byteLines_append_of_notMem hne hnewline]
  cases htail : rest.toList with
  | nil => exact ⟨[], congrArg (· :: []) h⟩
  | cons b tail =>
    obtain rfl := hrest b (by rw [htail]; rfl)
    rw [byteLines_newline]
    exact ⟨_, congrArg (· :: _) (fromUTF8?_newline h)⟩

end Garnet.Repl
