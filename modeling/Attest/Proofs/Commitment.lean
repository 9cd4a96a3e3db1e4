import Attest.Proofs.Address
import Attest.Proofs.Text.Utf8
import Attest.Registry

set_option autoImplicit false

/-!
# What an identifier of a schema commits to

The text of a schema, the resolver and the flag are hashed one after the other with nothing between
them. The byte string determines all three nevertheless, so a record whose fields were changed is
consistent only if two byte strings have one hash.
-/
namespace Attest

namespace Schema

variable {schema schema' : String} {resolver resolver' : Address} {revocable revocable' : Bool}

/-- Only the text varies in length, and it stands first. So the last 21 bytes are the other fields,
    whatever the text ends in. -/
theorem commitment_eq_iff :
    commitment schema resolver revocable = commitment schema' resolver' revocable' ↔
      schema' = schema ∧ resolver' = resolver ∧ revocable' = revocable := by
  constructor
  · intro h
    obtain ⟨h, hflag⟩ := List.append_inj' h rfl
    have hl : resolver.bytes.toList.length = resolver'.bytes.toList.length := by
      rw [Vector.length_toList, Vector.length_toList]
    obtain ⟨htext, hresolver⟩ := List.append_inj' h hl
    have hschema : schema = schema' := String.toList_inj.1 (Text.utf8_injective htext)
    have hf : ∀ flag flag' : Bool, ([if flag then 1 else 0] : Bytes) = [if flag' then 1 else 0] →
        flag = flag' := by
      decide
    exact ⟨hschema.symm, (Address.eq_of_toList hresolver).symm, (hf _ _ hflag).symm⟩
  · rintro ⟨rfl, rfl, rfl⟩
    rfl

end Schema

namespace SchemaRecord

open Schema

/-- The byte strings of two schemas are equal only if all fields are. So a record under the
    identifier of other fields is consistent exactly when its fields are those again, as long as the
    hash tells the two byte strings apart. -/
theorem register_commits (schema schema' : String) (resolver resolver' : Address)
    (revocable revocable' : Bool) :
    (commitment schema resolver revocable = commitment schema' resolver' revocable' ↔
      schema' = schema ∧ resolver' = resolver ∧ revocable' = revocable) ∧
    ((Keccak.hash (commitment schema resolver revocable) =
        Keccak.hash (commitment schema' resolver' revocable') →
      commitment schema resolver revocable = commitment schema' resolver' revocable') →
    ({ register schema resolver revocable with
        schema := schema', resolver := resolver', revocable := revocable' }.isConsistent = true ↔
      schema' = schema ∧ resolver' = resolver ∧ revocable' = revocable)) := by
  refine ⟨commitment_eq_iff, fun hash => ?_⟩
  rw [← commitment_eq_iff, isConsistent, decide_eq_true_eq]
  constructor
  · intro h
    exact hash (Uid.mk.inj h)
  · intro h
    exact congrArg (fun data => Uid.mk (Keccak.hash data)) h

set_option maxRecDepth 100000 in
theorem register_commits_flag :
    Keccak.hash (commitment "bool like" .zero true) ≠
      Keccak.hash (commitment "bool like" .zero false) ∧
    ¬ { register "bool like" .zero true with revocable := false }.isConsistent = true := by
  have hash : Keccak.hash (commitment "bool like" .zero true) ≠
      Keccak.hash (commitment "bool like" .zero false) := by
    -- Both hashes are computed.
    decide +kernel
  have h := (register_commits "bool like" "bool like" .zero .zero true false).2
    fun heq => absurd heq hash
  exact ⟨hash, fun hc => Bool.noConfusion (h.1 hc).2.2⟩

end SchemaRecord

end Attest
