import Attest.Proofs.Abi.Weight
import Attest.Proofs.Codec

set_option autoImplicit false

/-!
# Longer payloads and fewer types

A reader looks only at bytes that are there, so bytes behind a payload change nothing that is read
from it, wherever its offsets lead. The types at the front are read before those behind them, so they
are read likewise without them. Hence what decodes under the lenient policy decodes likewise when the
payload grows, and when types are left off at the end.
-/
namespace Attest

namespace Bytes

variable {data part : Bytes} {start size : Nat}

theorem slice?_append (h : data.slice? start size = some part) (extra : Bytes) :
    Bytes.slice? (data ++ extra) start size = some part := by
  obtain ⟨hl, rfl⟩ := slice?_eq_some_iff.1 h
  have hd : start ≤ data.length := by omega
  have ht : size ≤ (data.drop start).length := by
    rw [List.length_drop]
    omega
  refine slice?_eq_some_iff.2 ⟨?_, ?_⟩
  · rw [List.length_append]
    omega
  · rw [List.drop_append_of_le_length hd, List.take_append_of_le_length ht]

end Bytes

namespace Abi

section Reading

variable {data : Bytes} {pos : Nat}

theorem readSize?_append {n : Nat} (h : readSize? data pos = some n) (extra : Bytes) :
    readSize? (data ++ extra) pos = some n := by
  rw [readSize?, Option.bind_eq_bind, Option.bind_eq_some_iff] at h ⊢
  obtain ⟨word, hw, h⟩ := h
  exact ⟨word, Bytes.slice?_append hw extra, h⟩

theorem readSized?_append {content : Bytes} (h : readSized? data pos = some content)
    (extra : Bytes) : readSized? (data ++ extra) pos = some content := by
  simp only [readSized?, Option.bind_eq_bind, Option.bind_eq_some_iff] at h ⊢
  obtain ⟨start, hs, size, hn, hc⟩ := h
  exact ⟨start, readSize?_append hs extra, size, readSize?_append hn extra,
    Bytes.slice?_append hc extra⟩

theorem readTail?_append {tail : Bytes} (h : readTail? data pos = some tail) (extra : Bytes) :
    readTail? (data ++ extra) pos = some (tail ++ extra) := by
  simp only [readTail?, Option.bind_eq_bind, Option.bind_eq_some_iff] at h ⊢
  obtain ⟨start, hs, h⟩ := h
  refine ⟨start, readSize?_append hs extra, ?_⟩
  split at h
  · rename_i hl
    cases h
    have hle : start ≤ (data ++ extra).length := by
      rw [List.length_append]
      omega
    rw [if_pos hle, List.drop_append_of_le_length hl]
  · cases h

mutual

theorem Reads.append {shape : Shape} {data : Bytes} {pos next : Nat} {datum : Datum}
    (h : Reads shape data pos datum next) (extra : Bytes) :
    Reads shape (data ++ extra) pos datum next := by
  cases h with
  | address hw ha => exact .address (Bytes.slice?_append hw extra) ha
  | bool hw hz => exact .bool (Bytes.slice?_append hw extra) hz
  | uint hw => exact .uint (Bytes.slice?_append hw extra)
  | fixedBytes hc => exact .fixedBytes (Bytes.slice?_append hc extra)
  | bytes hc => exact .bytes (readSized?_append hc extra)
  | string hc => exact .string (readSized?_append hc extra)
  | @array _ _ _ start _ _ _ hs hc h =>
    -- The length word is there, so what stands behind it grows as the payload does.
    have hd : (data ++ extra).drop (start + 32) = data.drop (start + 32) ++ extra :=
      List.drop_append_of_le_length (readSize?_le hc)
    exact .array (readSize?_append hs extra) (readSize?_append hc extra) (hd ▸ h.append extra)
  | fixedArrayTail hd ht h => exact .fixedArrayTail hd (readTail?_append ht extra) (h.append extra)
  | fixedArray hd h => exact .fixedArray hd (h.append extra)
  | tupleTail hd ht h => exact .tupleTail hd (readTail?_append ht extra) (h.append extra)
  | tuple hd h => exact .tuple hd (h.append extra)

theorem ReadsAll.append {shapes : List Shape} {data : Bytes} {pos stop : Nat}
    {members : List Datum} (h : ReadsAll shapes data pos members stop) (extra : Bytes) :
    ReadsAll shapes (data ++ extra) pos members stop := by
  cases h with
  | nil => exact .nil
  | cons h hs => exact .cons (h.append extra) (hs.append extra)

end

theorem ReadsAll.take {first second : List Shape} {stop : Nat} {members : List Datum}
    (h : ReadsAll (first ++ second) data pos members stop) :
    ∃ next, ReadsAll first data pos (members.take first.length) next := by
  induction first generalizing pos members with
  | nil => exact ⟨pos, .nil⟩
  | cons shape first ih =>
    cases h with
    | cons hd hs =>
      obtain ⟨next, hn⟩ := ih hs
      exact ⟨next, .cons hd hn⟩

end Reading

section Decoding

variable {shapes first second : List Shape} {data : Bytes} {values : List Datum}

theorem decode_eq_ok_iff : decode shapes data = .ok values ↔
    (data = [] → shapes.all Shape.acceptsEmpty = true) ∧
      ∃ stop, ReadsAll shapes data 0 values stop := by
  constructor
  · intro h
    refine ⟨fun hd => ?_, readsAll_of_decode h⟩
    subst hd
    exact acceptsEmpty_of_decode_nil h
  · intro hx
    obtain ⟨he, stop, hr⟩ := hx
    have hn : (data.isEmpty && !shapes.all Shape.acceptsEmpty) = false := by
      cases data with
      | nil => simp [he rfl]
      | cons b data => rfl
    rw [decode, hn, if_neg Bool.false_ne_true, hr.readAll]

theorem decode_append (h : decode shapes data = .ok values) (extra : Bytes) :
    decode shapes (data ++ extra) = .ok values := by
  obtain ⟨he, stop, hr⟩ := decode_eq_ok_iff.1 h
  exact decode_eq_ok_iff.2
    ⟨fun hd => he (List.append_eq_nil_iff.1 hd).1, stop, hr.append extra⟩

theorem decode_take (h : decode (first ++ second) data = .ok values) :
    decode first data = .ok (values.take first.length) := by
  obtain ⟨he, stop, hr⟩ := decode_eq_ok_iff.1 h
  refine decode_eq_ok_iff.2 ⟨fun hd => ?_, hr.take⟩
  have ha := he hd
  rw [List.all_append, Bool.and_eq_true] at ha
  exact ha.1

end Decoding

end Abi

namespace Codec

open Abi

variable {first second : List Descriptor} {data : Bytes} {values : List Value}

theorem accept_lenient_iff {types : List Descriptor} :
    accept {} types data = .ok () ↔ ∀ type ∈ types, type.hasEmptyTuple = false := by
  rw [accept_eq_ok_iff]
  exact and_iff_right nofun

/-- What a payload decodes to under the lenient policy stays the same when bytes are added at its
    end, and its first values when types are left off at the end. -/
theorem decodeValues_lenient
    (h : decodeValues { strict := false, maxLength := none } (first ++ second) data = .ok values) :
    (∀ extra, decodeValues { strict := false, maxLength := none } (first ++ second) (data ++ extra) =
        .ok values) ∧
      decodeValues { strict := false, maxLength := none } first data =
        .ok (values.take first.length) := by
  obtain ⟨ha, hd, -, ht⟩ := decodeValues_eq_ok_iff.1 h
  have he := accept_lenient_iff.1 ha
  constructor
  · intro extra
    exact decodeValues_eq_ok_iff.2
      ⟨accept_lenient_iff.2 he, decode_append hd extra, nofun, ht⟩
  · have hf : ∀ type ∈ first, type.hasEmptyTuple = false :=
      fun type hm => he type (List.mem_append_left second hm)
    have hv := List.forall₂_take first.length ht
    rw [List.take_left] at hv
    rw [List.map_append] at hd
    have hr := decode_take hd
    rw [List.length_map, ← List.map_take] at hr
    exact decodeValues_eq_ok_iff.2 ⟨accept_lenient_iff.2 hf, hr, nofun, hv⟩

theorem decodeValues_lenient_shared :
    decodeValues { strict := false, maxLength := none } ([.array .bool] ++ [.array .bool])
        ([64, 64, 1, 1].flatMap sizeWord) =
        .ok [.array [.bool true], .array [.bool true]] ∧
      decodeValues { strict := false, maxLength := none } ([.array .bool] ++ [.array .bool])
        ([64, 64, 1, 1].flatMap sizeWord ++ [255]) =
        .ok [.array [.bool true], .array [.bool true]] ∧
      decodeValues { strict := false, maxLength := none } [.array .bool]
        ([64, 64, 1, 1].flatMap sizeWord) = .ok [.array [.bool true]] := by
  -- Both offsets lead to one tail.
  have hd : decodeValues { strict := false, maxLength := none }
      ([.array .bool] ++ [.array .bool]) ([64, 64, 1, 1].flatMap sizeWord) =
        .ok [.array [.bool true], .array [.bool true]] := by cbv
  obtain ⟨hm, hf⟩ := decodeValues_lenient hd
  exact ⟨hd, hm [255], hf⟩

end Codec

end Attest
