import EventDisp.HttpHandlers

/-! The keys of the cache. Heads and parts of bodies share one space of names: a URI
stands for a head, a URI with an offset behind `#` for a part of a body, and both are
cut to `MAXKEYS - 1` characters. -/
namespace EventDisp.Server

open CString

variable {uri other : Text} {offset position : Nat}

/-- A URI that `svr_http_parse` finds in a request. -/
def Requested (uri : Text) : Prop :=
  ∃ memory pe ph gk next, parseLine memory pe ph = (some gk, next) ∧ gk.uri = some uri

/-- A URI is a part of a string. -/
theorem Requested.whole (requested : Requested uri) : '\x00' ∉ uri := by
  obtain ⟨memory, pe, ph, gk, next, parsed, found⟩ := requested
  unfold parseLine at parsed
  dsimp only at parsed
  split at parsed
  · -- The URI ends where the first blank is found.
    split at parsed
    · cases parsed
      cases found
    · rename_i ps here
      obtain ⟨distance, blank, rfl⟩ := Option.map_eq_some_iff.mp here
      have clean := (strchr_before blank).1
      have within : ∀ start, ph + 4 ≤ start → '\x00' ∉ slice memory start (ph + 4 + distance) := by
        intro start later member
        have inside : slice memory start (ph + 4 + distance) =
            ((memory.drop (ph + 4)).take distance).drop (start - (ph + 4)) := by
          rw [slice, List.drop_take, List.drop_drop,
            show ph + 4 + (start - (ph + 4)) = start by omega,
            show distance - (start - (ph + 4)) = ph + 4 + distance - start by omega]
        rw [inside] at member
        exact clean (List.mem_of_mem_drop member)
      have result : slice memory
        (if (memory.drop (ph + 4)).head? = some '/' then ph + 4 + 1 else ph + 4)
          (ph + 4 + distance) = uri := by
        split at parsed
        · split at parsed
          all_goals
            cases parsed
            cases found
            rfl
        · cases parsed
          cases found
      rw [← result]
      exact within _ (by split <;> omega)
  · cases parsed

/-- The name of a part of a body, before it is cut. -/
def bodyName (uri : Text) (offset : Nat) : Text := uri ++ '#' :: decimal offset

theorem headKey_eq (requested : Requested uri) : headKey uri = uri.take (maxKeys - 1) := by
  rw [headKey, str_eq_self requested.whole]

theorem bodyKey_eq (requested : Requested uri) :
    bodyKey uri offset = (bodyName uri offset).take (maxKeys - 1) := by
  rw [bodyKey, str_eq_self requested.whole, bodyName]

/-- Names of parts of bodies differ before they are cut. -/
theorem bodyName_inj : bodyName uri offset = bodyName other position ↔ uri = other ∧
    offset = position := by
  have digits : ∀ number, '#' ∉ decimal number :=
    fun number member => by simpa using decimal_digits member
  rw [bodyName, bodyName, append_mark_inj (digits offset) (digits position)]
  exact and_congr_right fun _ => ⟨decimal_inj, congrArg decimal⟩

/-- Keys are the same only for what is the same. -/
structure KeysApart (uri : Text) (offset : Nat) (other : Text) (position : Nat) : Prop where
  heads : headKey uri = headKey other → uri = other
  bodies : bodyKey uri offset = bodyKey other position → uri = other ∧ offset = position
  kinds : headKey uri ≠ bodyKey other position

/-- Keys are told apart as long as no URI is another one with an offset behind `#`,
and no two names that differ have all the characters in common that are kept. -/
theorem keysApart_iff (requested : Requested uri) (also : Requested other) (offset position : Nat) :
    KeysApart uri offset other position ↔
      uri ≠ other ++ '#' :: decimal position ∧
      (uri ≠ other → ¬ Share (maxKeys - 1) uri other) ∧
      (¬ (uri = other ∧ offset = position) →
        ¬ Share (maxKeys - 1) (uri ++ '#' :: decimal offset) (other ++ '#' :: decimal position)) ∧
      ¬ Share (maxKeys - 1) uri (other ++ '#' :: decimal position) := by
  have heads : headKey uri = headKey other ↔ uri = other ∨ Share (maxKeys - 1) uri other := by
    rw [headKey_eq requested, headKey_eq also, take_eq_take_iff]
  have bodies : bodyKey uri offset = bodyKey other position ↔ (uri = other ∧ offset = position) ∨
      Share (maxKeys - 1) (bodyName uri offset) (bodyName other position) := by
    rw [bodyKey_eq requested, bodyKey_eq also, take_eq_take_iff, bodyName_inj]
  have kinds : headKey uri = bodyKey other position ↔ uri = bodyName other position ∨
      Share (maxKeys - 1) uri (bodyName other position) := by
    rw [headKey_eq requested, bodyKey_eq also, take_eq_take_iff]
  constructor
  · intro apart
    refine ⟨fun same => apart.kinds (kinds.mpr (.inl same)), ?_, ?_,
      fun share => apart.kinds (kinds.mpr (.inr share))⟩
    · intro different share
      exact different (apart.heads (heads.mpr (.inr share)))
    · intro different share
      exact different (apart.bodies (bodies.mpr (.inr share)))
  · rintro ⟨marked, longHeads, longBodies, longKinds⟩
    refine ⟨?_, ?_, ?_⟩
    · intro same
      by_contra different
      exact (heads.mp same).elim different (longHeads different)
    · intro same
      by_contra different
      exact (bodies.mp same).elim different (longBodies different)
    · intro same
      exact (kinds.mp same).elim marked longKinds

/-- A head and the first part of a body under one key. -/
theorem keysApart_marked : Requested "a#0".toList ∧ Requested "a".toList ∧
    ¬ KeysApart "a#0".toList 0 "a".toList 0 :=
  ⟨⟨"GET /a#0 HTTP/1.1\r\n\r\n".toList, 20, 0, _, _, rfl, by decide⟩,
    ⟨"GET /a HTTP/1.1\r\n\r\n".toList, 18, 0, _, _, rfl, by decide⟩, fun apart =>
      apart.kinds (by decide)⟩

/-- Two short URIs without `#`. -/
theorem keysApart_short : KeysApart "a".toList 0 "b".toList 0 := by
  refine (keysApart_iff ⟨"GET /a HTTP/1.1\r\n\r\n".toList, 18, 0, _, _, rfl, by decide⟩
    ⟨"GET /b HTTP/1.1\r\n\r\n".toList, 18, 0, _, _, rfl, by decide⟩ 0 0).mpr
    ⟨by decide, fun _ share => ?_, fun _ share => ?_, fun share => ?_⟩
  all_goals exact absurd share.long.1 (by decide)

end EventDisp.Server
