import BuildTargets.Proofs.Document.Lines

/-!
# Bytes of a text

Offsets count bytes. A byte below 128 stands for one character and is no part of another one, so
the ends of lines can be looked for among the bytes of a text as well as among its characters, and
the number of a line is the number of line feeds among the bytes before it.
-/

namespace BuildTargets

namespace Text

def bytesOf (text : List Char) : List UInt8 := text.flatMap String.utf8EncodeChar

@[simp] theorem bytesOf_cons (c : Char) (text : List Char) :
    bytesOf (c :: text) = String.utf8EncodeChar c ++ bytesOf text := rfl

theorem bytesOf_append (a b : List Char) : bytesOf (a ++ b) = bytesOf a ++ bytesOf b :=
  List.flatMap_append

theorem bytesOf_singleton (c : Char) : bytesOf [c] = String.utf8EncodeChar c := by
  rw [bytesOf_cons]
  exact List.append_nil _

@[simp] theorem length_bytesOf (text : List Char) : (bytesOf text).length = width text := by
  induction text with
  | nil => rfl
  | cons c text ih =>
    rw [bytesOf_cons, List.length_append, String.length_utf8EncodeChar, ih, width_cons]

theorem toUTF8_eq_bytesOf (text : String) : text.toUTF8.data.toList = bytesOf text.toList := by
  conv => lhs; rw [← String.ofList_toList (s := text)]
  rw [String.toUTF8_eq_toByteArray, String.toByteArray_ofList, List.utf8Encode,
    List.data_toByteArray]
  rfl

theorem utf8EncodeChar_of_mem {c : Char} {byte : UInt8} (ascii : byte.toNat < 128)
    (mem : byte ∈ String.utf8EncodeChar c) :
    String.utf8EncodeChar c = [byte] ∧ c.toNat = byte.toNat := by
  unfold String.utf8EncodeChar at mem ⊢
  dsimp only at mem ⊢
  split at mem
  · next single =>
    obtain rfl := List.mem_singleton.1 mem
    rw [if_pos single, UInt8.toNat_ofNat']
    refine ⟨rfl, ?_⟩
    show c.val.toNat = c.val.toNat % 2 ^ 8
    omega
  · -- All bytes of a longer character have the highest bit.
    exfalso
    split at mem
    · simp only [List.mem_cons, List.not_mem_nil, or_false] at mem
      rcases mem with rfl | rfl <;> simp only [UInt8.toNat_ofNat'] at ascii <;> omega
    · split at mem
      · simp only [List.mem_cons, List.not_mem_nil, or_false] at mem
        rcases mem with rfl | rfl | rfl <;> simp only [UInt8.toNat_ofNat'] at ascii <;> omega
      · simp only [List.mem_cons, List.not_mem_nil, or_false] at mem
        rcases mem with rfl | rfl | rfl | rfl <;> simp only [UInt8.toNat_ofNat'] at ascii <;> omega

theorem eq_lineFeed_of_mem {c : Char} (mem : 10 ∈ String.utf8EncodeChar c) : c = '\n' :=
  Char.toNat_inj.1 (utf8EncodeChar_of_mem (by decide) mem).2

theorem eq_return_of_mem {c : Char} (mem : 13 ∈ String.utf8EncodeChar c) : c = '\r' :=
  Char.toNat_inj.1 (utf8EncodeChar_of_mem (by decide) mem).2

theorem lineFeed_not_mem_bytesOf {text : List Char} (feed : '\n' ∉ text) : 10 ∉ bytesOf text := by
  intro mem
  obtain ⟨c, inside, mem⟩ := List.mem_flatMap.1 mem
  rw [eq_lineFeed_of_mem mem] at inside
  exact feed inside

theorem getElem?_last_eq_return_iff {text : List Char} (filled : text ≠ [])
    (front back : List Char) :
    (bytesOf (front ++ (text ++ back)))[width front + width text - 1]? = some 13 ↔
      text.getLast? = some '\r' := by
  obtain ⟨init, c, rfl⟩ : ∃ init c, text = init ++ [c] :=
    ⟨_, _, (List.dropLast_concat_getLast filled).symm⟩
  have size := String.length_utf8EncodeChar c
  have pos := c.utf8Size_pos
  have last : (bytesOf (front ++ (init ++ [c] ++ back)))[width front + width (init ++ [c]) - 1]? =
      (String.utf8EncodeChar c).getLast? := by
    rw [bytesOf_append, bytesOf_append, bytesOf_append, bytesOf_singleton, width_append, width_cons,
      width_nil, List.getElem?_append_right (by rw [length_bytesOf]; omega), List.append_assoc,
      List.getElem?_append_right (by simp only [length_bytesOf]; omega),
      List.getElem?_append_left (by simp only [length_bytesOf]; omega), List.getLast?_eq_getElem?,
      length_bytesOf, length_bytesOf, size]
    congr 1
    omega
  rw [last, List.getLast?_append, List.getLast?_singleton, Option.some_or, Option.some.injEq]
  constructor
  · exact fun eq => eq_return_of_mem (List.mem_of_getLast? eq)
  · rintro rfl
    rfl

/-! ## Counting line feeds -/

theorem count_take_append {w : List Char} (feed : '\n' ∉ w) (rest : List Char) (count : Nat) :
    ((bytesOf (w ++ rest)).take count).count 10 =
      ((bytesOf rest).take (count - width w)).count 10 := by
  have none : ((bytesOf w).take count).count 10 = 0 :=
    List.count_eq_zero.2 fun mem => lineFeed_not_mem_bytesOf feed (List.mem_of_mem_take mem)
  rw [bytesOf_append, List.take_append, List.count_append, none, length_bytesOf, Nat.zero_add]

theorem count_take_lineFeed (rest : List Char) (count : Nat) :
    ((bytesOf ('\n' :: rest)).take (count + 1)).count 10 =
      ((bytesOf rest).take count).count 10 + 1 := by
  rw [bytesOf_cons, show String.utf8EncodeChar '\n' = [10] from rfl, List.singleton_append,
    List.take_succ_cons, List.count_cons_self]

theorem lineFeedsBefore_eq_count (offset start : Nat) (text : List Char) :
    lineFeedsBefore offset start text = ((bytesOf text).take (offset - start)).count 10 := by
  induction text generalizing start with
  | nil => simp [lineFeedsBefore, bytesOf]
  | cons c text ih =>
    rw [lineFeedsBefore]
    split
    · next reached => rw [Nat.sub_eq_zero_of_le reached, List.take_zero, List.count_nil]
    · next before =>
      rw [ih]
      by_cases feed : c = '\n'
      · subst feed
        have size : '\n'.utf8Size = 1 := rfl
        rw [if_pos rfl, size, show offset - start = offset - (start + 1) + 1 by omega,
          count_take_lineFeed, Nat.add_comm]
      · have alone : '\n' ∉ [c] := by simpa using Ne.symm feed
        rw [if_neg feed, ← List.singleton_append, count_take_append alone, Nat.zero_add, width_cons,
          width_nil, Nat.add_zero, Nat.sub_sub]

end Text

namespace Document

def bytes (document : Document) : List UInt8 := document.text.toUTF8.data.toList

theorem bytes_eq (document : Document) : document.bytes = Text.bytesOf document.chars :=
  Text.toUTF8_eq_bytesOf document.text

theorem length_bytes (document : Document) : document.bytes.length = Text.width document.chars := by
  rw [bytes_eq, Text.length_bytesOf]

/-- The number of the line that a byte lies on is the number of line feeds before it. -/
theorem lineNumber_eq_count (document : Document) (offset : Nat) :
    document.lineNumber offset = (document.bytes.take offset).count 10 := by
  rw [lineNumber, Text.lineFeedsBefore_eq_count, bytes_eq, Nat.sub_zero]

end Document

end BuildTargets
