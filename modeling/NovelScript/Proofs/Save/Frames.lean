import NovelScript.Proofs.Action
import NovelScript.Proofs.Save.RoundTrip

/-!
# Frames survive their file format

In a save file the open calls and loops stand in front of all strings of variables. So they come
back, the outermost first, also where the rest of the file does not: a string with a zero byte may
make the file give other variables than were saved, or none at all, but never other frames. At most
the innermost ones are missing, if there are more than can be counted in 32 bits.
-/

namespace NovelScript

/-- What is left of a number in 32 bits is at most as great, unless it is negative. -/
theorem toNat_toInt_ofNat_le (n : Nat) : (Int32.ofNat n).toInt.toNat ≤ n := by
  have hmod : (Int32.ofNat n).toInt = (n : Int).bmod (2 ^ 32) := Int32.toInt_ofNat'
  rw [hmod, Int.bmod_def]
  split <;> omega

namespace Decoder

variable {α β : Type} {P : β → Prop}

/-- Whatever the reader gives from `bytes`, with anything behind them, satisfies `P`. -/
def Reads (item : Decoder β) (bytes : Bytes) (P : β → Prop) : Prop :=
  ∀ rest offset b next, item ⟨bytes ++ rest, offset⟩ = .ok (b, next) → P b

namespace Reads

private theorem ofYields {item : Decoder β} (h : Yields item P) (bytes : Bytes) :
    Reads item bytes P :=
  fun _ _ b next hrun => h _ b next hrun

/-- A first step that takes what is in front. -/
theorem bind {item : Decoder α} {f : α → Decoder β} {bytes more : Bytes} {a : α}
    (hitem : Takes item bytes a) (hf : Reads (f a) more P) :
    Reads (item >>= f) (bytes ++ more) P := by
  intro rest offset b next h
  rw [List.append_assoc] at h
  simp only [Bind.bind, StateT.bind, hitem (more ++ rest) offset] at h
  exact hf rest _ b next h

/-- A number of any size is written in 32 bits, so what is read is at most as great. -/
theorem natural {refuse : Int32 → Fault} {f : Nat → Decoder β} {n : Nat} {more : Bytes}
    (hf : ∀ k ≤ n, Reads (f k) more P) :
    Reads (natural refuse >>= f) (Save.countBytes n ++ more) P := by
  rw [Decoder.natural, bind_assoc]
  refine bind (takes_int32 (Int32.ofNat n)) ?_
  by_cases hneg : Int32.ofNat n < 0
  · simp only [if_pos hneg]
    rintro rest offset b next ⟨⟩
  · simp only [if_neg hneg]
    exact hf _ (toNat_toInt_ofNat_le n)

end Reads

end Decoder

namespace Save

open NovelScript.Decoder

/-- The frames of a file are those that were written into it, or at least the outermost of them,
whatever else the save holds. -/
theorem frames_prefix_of_ofBytes {save back : Save} (hposition : save.position.Storable)
    (hframes : ∀ frame ∈ save.frames, frame.Storable) (h : ofBytes save.toBytes = .ok back) :
    back.frames <+: save.frames := by
  have hreads : Reads (Decoder.save save.toBytes.length) save.toBytes
      fun body => body.frames <+: save.frames := by
    have hmark : Takes fourBytes fileMark (0x4e, 0x53, 0x41, 0x56) := fun _ _ => rfl
    generalize save.toBytes.length = fileSize
    simp only [toBytes, listBytes, List.cons_append, List.append_assoc]
    refine .bind hmark ?_
    refine .bind (takes_byte fileVersion) ?_
    refine .bind (takes_savedPosition hposition) ?_
    refine .bind (takes_bool save.inText) ?_
    refine .bind (takes_bool save.narrow) ?_
    refine .natural fun k hk => ?_
    have htake : Takes (many savedFrame k) ((save.frames.take k).flatMap frameBytes)
        (save.frames.take k) := by
      have hmany : Takes (many savedFrame (save.frames.take k).length)
          ((save.frames.take k).flatMap frameBytes) (save.frames.take k) :=
        takes_many fun frame hframe => takes_savedFrame (hframes frame (List.mem_of_mem_take hframe))
      rwa [List.length_take_of_le hk] at hmany
    rw [← List.take_append_drop k save.frames, List.flatMap_append, List.append_assoc]
    rw [List.take_append_drop k save.frames]
    refine .bind htake (.ofYields ?_ _)
    refine .after fun _ => .after fun _ => .after fun _ => .after fun _ => .after fun _ => ?_
    refine .after fun _ => .after fun _ => .pure ?_
    exact List.take_prefix k save.frames
  simp only [ofBytes, bind, Except.bind] at h
  cases hbody : Decoder.save save.toBytes.length { rest := save.toBytes, offset := 0 } with
  | error fault =>
    rw [hbody] at h
    cases h
  | ok read =>
    obtain ⟨body, feed⟩ := read
    rw [hbody] at h
    obtain ⟨description, -, h⟩ := Action.exists_of_bind_eq_ok h
    cases h
    exact hreads [] 0 body feed (by rw [List.append_nil, hbody])

end Save

end NovelScript
