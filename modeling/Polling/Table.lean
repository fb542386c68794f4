/-! # Tables

A `Table` holds values under names, in the order in which the names were first used.  Its view is
`find?`; `find?_insert`, `find?_modify` say what the other operations do to it. -/

namespace Polling

/-- Values under names. -/
abbrev Table (β : Type) := List (String × β)

namespace Table

variable {β : Type}

/-- The value under a name. -/
def find? (t : Table β) (name : String) : Option β := t.lookup name

/-- Changes the value under a name, if there is one. -/
def modify (t : Table β) (name : String) (f : β → β) : Table β :=
  t.map fun (n, b) => (n, if n = name then f b else b)

/-- Puts a value under a name, in place of the one that is there. -/
def insert (t : Table β) (name : String) (b : β) : Table β :=
  if (t.find? name).isSome then t.modify name fun _ => b else t ++ [(name, b)]

/-- The names in use. -/
def names (t : Table β) : List String := t.map (·.1)

theorem find?_cons (n : String) (b : β) (t : Table β) (name : String) :
    find? ((n, b) :: t) name = if name = n then some b else find? t name := by
  by_cases h : name = n
  · simp [find?, h]
  · have hb : (name == n) = false := by simp [h]
    simp [find?, List.lookup_cons, h, hb]

theorem find?_modify (t : Table β) (name : String) (f : β → β) (other : String) :
    (t.modify name f).find? other =
      if other = name then (t.find? other).map f else t.find? other := by
  induction t with
  | nil => simp [modify, find?]
  | cons e t ih =>
    obtain ⟨n, b⟩ := e
    have ih' : find? (modify t name f) other =
        if other = name then (find? t other).map f else find? t other := ih
    -- `modify` keeps the name of every entry, so `find?` stops at the same one.
    show find? ((n, if n = name then f b else b) :: modify t name f) other = _
    rw [find?_cons, find?_cons, ih']
    by_cases h : other = n
    · subst h
      by_cases hn : other = name <;> simp [hn]
    · simp [h]

theorem find?_append (t u : Table β) (name : String) :
    find? (t ++ u) name = (find? t name).or (find? u name) := by
  induction t with
  | nil => simp [find?]
  | cons e t ih =>
    obtain ⟨n, b⟩ := e
    show find? ((n, b) :: (t ++ u)) name = _
    rw [find?_cons, find?_cons, ih]
    by_cases h : name = n <;> simp [h]

theorem find?_insert (t : Table β) (name : String) (b : β) (other : String) :
    (t.insert name b).find? other = if other = name then some b else t.find? other := by
  unfold insert
  split
  · rename_i h
    rw [find?_modify]
    by_cases hn : other = name
    · subst hn
      obtain ⟨c, hc⟩ := Option.isSome_iff_exists.1 h
      simp [hc]
    · simp [hn]
  · rename_i h
    rw [find?_append, find?_cons]
    by_cases hn : other = name
    · subst hn
      simp only [Option.not_isSome_iff_eq_none] at h
      simp [h]
    · simp [hn, find?]

theorem names_modify (t : Table β) (name : String) (f : β → β) :
    (t.modify name f).names = t.names := by
  simp [names, modify]

theorem modify_modify (t : Table β) (name : String) (f g : β → β) :
    (t.modify name f).modify name g = t.modify name fun b => g (f b) := by
  simp only [modify, List.map_map]
  refine List.map_congr_left fun ⟨n, b⟩ _ => ?_
  by_cases hn : n = name <;> simp [hn]

theorem mem_names {t : Table β} {name : String} : name ∈ t.names ↔ ∃ b, t.find? name = some b := by
  induction t with
  | nil => simp [names, find?]
  | cons e t ih =>
    obtain ⟨n, b⟩ := e
    show name ∈ n :: names t ↔ _
    rw [List.mem_cons, find?_cons, ih]
    by_cases hn : name = n <;> simp [hn]

theorem nodup_insert {t : Table β} (unique : t.names.Nodup) (name : String) (b : β) :
    (t.insert name b).names.Nodup := by
  unfold insert
  split
  · rw [names_modify]
    exact unique
  · next hnew =>
    have hnot : name ∉ t.names := fun hmem => hnew (Option.isSome_iff_exists.2 (mem_names.1 hmem))
    have hnames : names (t ++ [(name, b)]) = t.names ++ [name] := by simp [names]
    rw [hnames, List.nodup_append]
    refine ⟨unique, by simp, fun n hn other hother => ?_⟩
    rintro rfl
    exact hnot (List.mem_singleton.1 hother ▸ hn)

/-- A name has one value if no name is used twice. -/
theorem find?_of_mem {t : Table β} (unique : t.names.Nodup) {name : String} {b : β}
    (hb : (name, b) ∈ t) : t.find? name = some b := by
  induction t with
  | nil => cases hb
  | cons e t ih =>
    obtain ⟨n, c⟩ := e
    obtain ⟨hn, ht⟩ := List.nodup_cons.1 unique
    rw [find?_cons]
    rcases List.mem_cons.1 hb with heq | hmem
    · cases heq
      exact if_pos rfl
    · have hne : name ≠ n := by
        rintro rfl
        exact hn (List.mem_map.2 ⟨_, hmem, rfl⟩)
      rw [if_neg hne]
      exact ih ht hmem

/-- Only the value that is there matters for a change. -/
theorem modify_congr {t : Table β} (unique : t.names.Nodup) {name : String} {f g : β → β}
    (h : ∀ b, t.find? name = some b → f b = g b) : t.modify name f = t.modify name g := by
  refine List.map_congr_left fun ⟨n, b⟩ hb => ?_
  by_cases hn : n = name
  · subst hn
    simp [h b (find?_of_mem unique hb)]
  · simp [hn]

end Table

end Polling
