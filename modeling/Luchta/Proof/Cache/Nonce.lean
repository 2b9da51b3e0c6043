import Luchta.Impl.CacheNonce

/-!
# Cache nonces do not collide

* `intercalate_inj`: parts without the separator are recovered from what they are joined to.
* `nonceParts_inj`: the parts tell the nonce of each scope.
* `resolveCacheNonce_injective`: so does the resolved nonce.
-/

namespace Luchta.Proof.Cache

open Luchta.Framework Luchta.Impl

theorem toList_intercalate (sep : String) (parts : List String) :
    (sep.intercalate parts).toList = sep.toList.intercalate (parts.map String.toList) := by
  rw [String.toList_intercalate]

theorem intercalate_inj {c : Char} {parts parts' : List String} (h : ∀ p ∈ parts, c ∉ p.toList)
    (h' : ∀ p ∈ parts', c ∉ p.toList) (hne : parts ≠ []) (hne' : parts' ≠ [])
    (heq : (String.singleton c).intercalate parts = (String.singleton c).intercalate parts') :
    parts = parts' := by
  have hsplit : ∀ {ps : List String}, (∀ p ∈ ps, c ∉ p.toList) → ps ≠ [] →
      ((String.singleton c).intercalate ps).toList.splitOn c = ps.map String.toList := by
    intro ps hps hps'
    rw [toList_intercalate, String.toList_singleton, List.splitOn_intercalate]
    · intro l hl
      obtain ⟨p, hp, rfl⟩ := List.mem_map.1 hl
      exact hps p hp
    · exact fun hnil => hps' (List.map_eq_nil_iff.1 hnil)
  refine List.map_injective_iff.2 (fun _ _ => String.toList_inj.1) ?_
  rw [← hsplit h hne, ← hsplit h' hne', heq]

/-! ## Parts -/

theorem ampersand_not_mem (value : String) :
    '&' ∉ (percentEncode CACHE_NONCE_ENCODE_SET value).toList :=
  not_mem_percentEncode (show CACHE_NONCE_ENCODE_SET 0x26 = true by decide) (by decide) (by decide) value

/-- A part tells its scope and its nonce. -/
theorem part_inj {key key' value value' : String} (hkey : '=' ∉ key.toList) (hkey' : '=' ∉ key'.toList)
    (heq : key ++ "=" ++ percentEncode CACHE_NONCE_ENCODE_SET value =
      key' ++ "=" ++ percentEncode CACHE_NONCE_ENCODE_SET value') : key = key' ∧ value = value' := by
  have hset : CACHE_NONCE_ENCODE_SET 0x25 = true := by decide
  have hequals : "=".toList = ['='] := by decide
  have hlist := congrArg String.toList heq
  simp only [String.toList_append, List.append_assoc, hequals, List.singleton_append] at hlist
  obtain ⟨hkeys, hvalues⟩ := append_separator_inj hkey hkey' hlist
  exact ⟨String.toList_inj.1 hkeys, percentEncode_injective hset (String.toList_inj.1 hvalues)⟩

theorem exists_of_mem_nonceParts {scopes : List (String × Option String)} {part : String}
    (h : part ∈ nonceParts scopes) : ∃ key value, key ∈ scopes.map Prod.fst ∧
      part = key ++ "=" ++ percentEncode CACHE_NONCE_ENCODE_SET value := by
  obtain ⟨⟨key, value⟩, hmem, hpart⟩ := List.mem_filterMap.1 h
  obtain ⟨v, -, rfl⟩ := Option.map_eq_some_iff.1 hpart
  exact ⟨key, v, List.mem_map_of_mem hmem, rfl⟩

/-- The parts of scopes with the same keys, none of them twice, tell the nonces. -/
theorem nonceParts_inj {keys : List String} (hnodup : keys.Nodup) (hkeys : ∀ k ∈ keys, '=' ∉ k.toList)
    {scopes scopes' : List (String × Option String)} (h : scopes.map Prod.fst = keys)
    (h' : scopes'.map Prod.fst = keys) (heq : nonceParts scopes = nonceParts scopes') :
    scopes = scopes' := by
  induction keys generalizing scopes scopes' with
  | nil => rw [List.map_eq_nil_iff.1 h, List.map_eq_nil_iff.1 h']
  | cons key keys ih =>
    obtain ⟨⟨k, value⟩, scopes, rfl, hk, htail⟩ := List.map_eq_cons_iff.1 h
    obtain ⟨⟨k', value'⟩, scopes', rfl, hk', htail'⟩ := List.map_eq_cons_iff.1 h'
    obtain rfl : k = key := hk
    obtain rfl : k' = k := hk'
    obtain ⟨hnot, hnodup⟩ := List.nodup_cons.1 hnodup
    have hrest : ∀ {rest rest' : List (String × Option String)}, rest.map Prod.fst = keys →
        rest'.map Prod.fst = keys → nonceParts rest = nonceParts rest' → rest = rest' :=
      ih hnodup fun k hk => hkeys k (List.mem_cons_of_mem _ hk)
    have hother : ∀ {v : String} {rest : List (String × Option String)}, rest.map Prod.fst = keys →
        ∀ part parts, nonceParts rest = part :: parts →
          part ≠ k' ++ "=" ++ percentEncode CACHE_NONCE_ENCODE_SET v := by
      intro v rest hrest part parts hparts hpart
      -- the part of another scope
      obtain ⟨key, w, hkey, rfl⟩ := exists_of_mem_nonceParts (hparts ▸ List.mem_cons_self)
      rw [hrest] at hkey
      obtain ⟨rfl, -⟩ := part_inj (hkeys key (List.mem_cons_of_mem _ hkey))
        (hkeys k' List.mem_cons_self) hpart
      exact hnot hkey
    cases value with
    | none =>
      cases value' with
      | none => rw [hrest htail htail' heq]
      | some v' => exact absurd rfl (hother htail _ _ heq)
    | some v =>
      cases value' with
      | none => exact absurd rfl (hother htail' _ _ heq.symm)
      | some v' =>
        obtain ⟨hpart, hparts⟩ := List.cons_eq_cons.1 heq
        have hkey := hkeys k' List.mem_cons_self
        rw [(part_inj hkey hkey hpart).2, hrest htail htail' hparts]

theorem ampersand_not_mem_parts {scopes : List (String × Option String)}
    (hkeys : ∀ k ∈ scopes.map Prod.fst, '&' ∉ k.toList) :
    ∀ part ∈ nonceParts scopes, '&' ∉ part.toList := by
  intro part hpart hmem
  obtain ⟨key, value, hkey, rfl⟩ := exists_of_mem_nonceParts hpart
  simp only [String.toList_append, List.mem_append] at hmem
  rcases hmem with (hmem | hmem) | hmem
  · exact hkeys key hkey hmem
  · revert hmem
    decide
  · exact ampersand_not_mem value hmem

/-- Whatever the nonces contain, the resolved one tells all four, absent and empty ones too. -/
theorem resolveCacheNonce_injective :
    Function.Injective fun n : Option String × Option String × Option String × Option String =>
      resolveCacheNonce n.1 n.2.1 n.2.2.1 n.2.2.2 := by
  rintro ⟨e, g, w, t⟩ ⟨e', g', w', t'⟩ heq
  dsimp only [resolveCacheNonce] at heq
  have hamp : ∀ e g w t : Option String,
      ∀ part ∈ nonceParts [("env", e), ("global", g), ("worker", w), ("task", t)],
        '&' ∉ part.toList := fun e g w t =>
    ampersand_not_mem_parts (show ∀ k ∈ ["env", "global", "worker", "task"], '&' ∉ k.toList by decide)
  have hparts : nonceParts [("env", e), ("global", g), ("worker", w), ("task", t)] =
      nonceParts [("env", e'), ("global", g'), ("worker", w'), ("task", t')] := by
    split at heq
    · rename_i hnil
      split at heq
      · rename_i hnil'
        rw [List.isEmpty_iff.1 hnil, List.isEmpty_iff.1 hnil']
      · cases heq
    · rename_i hne
      split at heq
      · cases heq
      · rename_i hne'
        rw [List.isEmpty_iff] at hne hne'
        exact intercalate_inj (hamp e g w t) (hamp e' g' w' t') hne hne' (Option.some.inj heq)
  have hnodup : ["env", "global", "worker", "task"].Nodup := by decide
  have hscopes := nonceParts_inj hnodup (by decide) rfl rfl hparts
  simp only [List.cons.injEq, Prod.mk.injEq, true_and, and_true] at hscopes
  obtain ⟨rfl, rfl, rfl, rfl⟩ := hscopes
  rfl

example : resolveCacheNonce (some "a&b") none (some "") none = some "env=a%26b&worker=" := by
  decide +kernel

end Luchta.Proof.Cache
