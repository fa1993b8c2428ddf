import Gatehouse.Proofs.Text.Base64
import Gatehouse.Proofs.Text.ReadBack
import Gatehouse.SecretBox

/-!
# What is sealed can be opened

`decrypt_encrypt`: a box opens what it has sealed under any nonce, and gives the text that was sealed.

Proof. The key stream is added block by block, and adding it twice changes nothing (`apply_apply`), as each
block of it is as long as a block of text can be. The tag is of a fixed length, so that it is split off
where it was put (`open?_sealText`). The written form has no white space and is read back.
-/

namespace Gatehouse

/-! ### The key stream -/

namespace Crypto.ChaCha20

theorem length_block (key nonce : Bytes) (counter : Nat) : (block key nonce counter).length = 64 := by
  unfold block
  simp [List.length_flatMap, List.map_const']

/-- The text is cut off block by block. -/
theorem blocks_eq {text : Bytes} (h : text ≠ []) :
    Bytes.blocks 64 text = text.take 64 :: Bytes.blocks 64 (text.drop 64) := by
  cases text with
  | nil => exact absurd rfl h
  | cons b rest => rw [Bytes.blocks, List.take_succ_cons, List.drop_succ_cons]

theorem zipWith_xor_cancel {text stream : Bytes} (h : text.length ≤ stream.length) :
    List.zipWith (· ^^^ ·) (List.zipWith (· ^^^ ·) text stream) stream = text := by
  induction text generalizing stream with
  | nil => rfl
  | cons b text ih =>
    cases stream with
    | nil => simp at h
    | cons k stream =>
      simp only [List.length_cons, Nat.add_le_add_iff_right] at h
      rw [List.zipWith_cons_cons, List.zipWith_cons_cons, ih h, UInt8.xor_assoc, UInt8.xor_self,
        UInt8.xor_zero]

theorem applyBlocks_eq (key nonce : Bytes) (counter : Nat) {text : Bytes} (h : text ≠ []) :
    applyBlocks key nonce counter (Bytes.blocks 64 text) =
      List.zipWith (· ^^^ ·) (text.take 64) (block key nonce counter) ++
        applyBlocks key nonce (counter + 1) (Bytes.blocks 64 (text.drop 64)) := by
  rw [blocks_eq h, applyBlocks]

theorem applyBlocks_nil (key nonce : Bytes) (counter : Nat) :
    applyBlocks key nonce counter (Bytes.blocks 64 []) = [] := by
  rw [Bytes.blocks, applyBlocks]

theorem applyBlocks_applyBlocks (key nonce : Bytes) (n : Nat) :
    ∀ (counter : Nat) (text : Bytes), text.length ≤ n →
      applyBlocks key nonce counter
        (Bytes.blocks 64 (applyBlocks key nonce counter (Bytes.blocks 64 text))) = text := by
  induction n with
  | zero =>
    intro counter text hlength
    rw [List.length_eq_zero_iff.mp (Nat.le_zero.mp hlength), applyBlocks_nil, applyBlocks_nil]
  | succ n ih =>
    intro counter text hlength
    by_cases hnil : text = []
    · rw [hnil, applyBlocks_nil, applyBlocks_nil]
    have hpos := List.length_pos_iff.mpr hnil
    rw [applyBlocks_eq key nonce counter hnil]
    generalize hfirst : List.zipWith (· ^^^ ·) (text.take 64) (block key nonce counter) = first
    generalize hrest : applyBlocks key nonce (counter + 1) (Bytes.blocks 64 (text.drop 64)) = rest
    have hlen : first.length = min 64 text.length := by
      rw [← hfirst, List.length_zipWith, length_block, List.length_take]
      omega
    have hback : List.zipWith (· ^^^ ·) first (block key nonce counter) = text.take 64 := by
      rw [← hfirst]
      apply zipWith_xor_cancel
      rw [length_block, List.length_take]
      omega
    have hdrop : applyBlocks key nonce (counter + 1) (Bytes.blocks 64 rest) = text.drop 64 := by
      rw [← hrest]
      exact ih (counter + 1) (text.drop 64) (by rw [List.length_drop]; omega)
    -- The first block is a whole one, or there is nothing after it.
    have hsplit : (first ++ rest).take 64 = first ∧ (first ++ rest).drop 64 = rest := by
      rcases Nat.lt_or_ge text.length 64 with hshort | hwhole
      · have hnone : rest = [] := by
          rw [← hrest, List.drop_eq_nil_of_le (by omega), applyBlocks_nil]
        rw [hnone, List.append_nil]
        exact ⟨List.take_of_length_le (by omega), List.drop_eq_nil_of_le (by omega)⟩
      · have hsize : first.length = 64 := by omega
        exact ⟨List.take_left' hsize, List.drop_left' hsize⟩
    have hne : first ++ rest ≠ [] := by
      intro h
      have := congrArg List.length h
      rw [List.length_append, List.length_nil] at this
      omega
    rw [applyBlocks_eq key nonce counter hne, hsplit.1, hsplit.2, hback, hdrop, List.take_append_drop]

theorem apply_apply (key nonce text : Bytes) : apply key nonce (apply key nonce text) = text :=
  applyBlocks_applyBlocks key nonce text.length 1 text (Nat.le_refl _)

end Crypto.ChaCha20

/-! ### The tag -/

namespace Crypto.Aead

theorem length_tag (key nonce enciphered : Bytes) : (tag key nonce enciphered).length = tagLength := by
  simp [tag, Poly1305.tag, tagLength]

theorem open?_sealText (key nonce text : Bytes) :
    open? key nonce (sealText key nonce text) = some text := by
  have hlength : (sealText key nonce text).length - tagLength =
      (ChaCha20.apply key nonce text).length := by
    rw [sealText, List.length_append, length_tag, Nat.add_sub_cancel]
  unfold open?
  dsimp only
  rw [hlength, sealText, List.take_left, List.drop_left, if_pos rfl, ChaCha20.apply_apply]

end Crypto.Aead

/-! ### The box -/

namespace SecretBox

theorem decrypt_encrypt (box : SecretBox) {nonce : Bytes} (hnonce : nonce.length = Crypto.Aead.nonceLength)
    (plain : String) : box.decrypt (box.encrypt nonce plain) = .ok plain := by
  obtain ⟨_ | key⟩ := box
  · rfl
  unfold encrypt decrypt
  dsimp only
  rw [Base64.encode, String.toList_ofList, Text.trimChars_eq_self Base64.isBlank_of_mem_encodeChars,
    Base64.decodeChars?_encodeChars]
  dsimp only
  have hlong : ¬ (nonce ++ Crypto.Aead.sealText key nonce (Text.utf8 plain)).length <
      Crypto.Aead.nonceLength + Crypto.Aead.tagLength := by
    rw [List.length_append, hnonce, Crypto.Aead.sealText, List.length_append, Crypto.Aead.length_tag]
    omega
  rw [if_neg hlong, List.take_left' hnonce, List.drop_left' hnonce, Crypto.Aead.open?_sealText]
  dsimp only
  rw [Text.ofUtf8?_utf8]

theorem decryptOrRaw_encrypt (box : SecretBox) {nonce : Bytes}
    (hnonce : nonce.length = Crypto.Aead.nonceLength) (plain : String) :
    box.decryptOrRaw (box.encrypt nonce plain) = plain := by
  rw [decryptOrRaw, decrypt_encrypt box hnonce]

theorem decryptOrRaw_disabled (stored : String) : disabled.decryptOrRaw stored = stored := rfl

/-- An empty text is too short to have been sealed. -/
theorem decryptOrRaw_empty (box : SecretBox) : box.decryptOrRaw "" = "" := by
  obtain ⟨_ | key⟩ := box <;> rfl

/-- What is sealed is not empty. -/
theorem encrypt_ne_empty {box : SecretBox} {nonce : Bytes}
    (hnonce : nonce.length = Crypto.Aead.nonceLength) {plain : String} (h : plain ≠ "") :
    box.encrypt nonce plain ≠ "" := by
  intro hempty
  have hplain := decryptOrRaw_encrypt box hnonce plain
  rw [hempty, decryptOrRaw_empty] at hplain
  exact h hplain.symm

end SecretBox

end Gatehouse
