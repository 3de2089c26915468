namespace GraphSql

-- Lists that keep the order in which their items came: sets without repetition, tables of entries,
-- and taking out the first item of a kind.

variable {α β : Type}

def appendNew [DecidableEq α] (items : List α) (item : α) : List α :=
  if item ∈ items then items else items ++ [item]

def appendAllNew [DecidableEq α] (items more : List α) : List α := more.foldl appendNew items

def distinct [DecidableEq α] (items : List α) : List α := appendAllNew [] items

def putEntry [DecidableEq α] (key : α) (value : β) : List (α × β) → List (α × β)
  | [] => [(key, value)]
  | entry :: rest =>
    if entry.1 = key then (key, value) :: rest else entry :: putEntry key value rest

def collectEntries [DecidableEq α] (entries : List (α × β)) : List (α × β) :=
  entries.foldl (fun held entry => putEntry entry.1 entry.2 held) []

def takeFirst? (wanted : α → Bool) : List α → Option (α × List α)
  | [] => none
  | item :: rest =>
    if wanted item then some (item, rest)
    else (takeFirst? wanted rest).map fun (found, others) => (found, item :: others)

@[simp] theorem mem_appendNew [DecidableEq α] (items : List α) (item other : α) :
    other ∈ appendNew items item ↔ other ∈ items ∨ other = item := by
  unfold appendNew
  split
  next known =>
    constructor
    · exact Or.inl
    · intro member
      rcases member with old | rfl
      · exact old
      · exact known
  next fresh => simp

theorem nodup_appendNew [DecidableEq α] (items : List α) (item : α) (apart : items.Nodup) :
    (appendNew items item).Nodup := by
  unfold appendNew
  split
  next known => exact apart
  next fresh =>
    refine List.nodup_append.mpr ⟨apart, by simp, ?_⟩
    intro other member last single same
    cases List.mem_singleton.mp single
    exact fresh (same ▸ member)

@[simp] theorem mem_appendAllNew [DecidableEq α] (items more : List α) (other : α) :
    other ∈ appendAllNew items more ↔ other ∈ items ∨ other ∈ more := by
  unfold appendAllNew
  induction more generalizing items with
  | nil => simp
  | cons item rest ih => simp [ih, or_assoc]

theorem nodup_appendAllNew [DecidableEq α] (items more : List α) (apart : items.Nodup) :
    (appendAllNew items more).Nodup := by
  unfold appendAllNew
  induction more generalizing items with
  | nil => exact apart
  | cons item rest ih => exact ih _ (nodup_appendNew items item apart)

@[simp] theorem mem_distinct [DecidableEq α] (items : List α) (item : α) :
    item ∈ distinct items ↔ item ∈ items := by
  simp [distinct]

theorem distinct_eq_nil_iff [DecidableEq α] {items : List α} :
    distinct items = [] ↔ items = [] := by
  simp only [List.eq_nil_iff_forall_not_mem, mem_distinct]

theorem nodup_distinct [DecidableEq α] (items : List α) : (distinct items).Nodup :=
  nodup_appendAllNew [] items .nil

theorem appendAllNew_append [DecidableEq α] (items more others : List α) :
    appendAllNew items (more ++ others) = appendAllNew (appendAllNew items more) others :=
  List.foldl_append

theorem appendAllNew_appendAllNew [DecidableEq α] (items more others : List α) :
    appendAllNew items (appendAllNew more others) =
      appendAllNew (appendAllNew items more) others := by
  induction others generalizing more with
  | nil => rfl
  | cons item rest ih =>
    have first : appendAllNew items (appendNew more item) =
        appendNew (appendAllNew items more) item := by
      unfold appendNew
      split
      next known => rw [if_pos ((mem_appendAllNew _ _ _).mpr (.inr known))]
      next => rw [appendAllNew_append]; rfl
    exact (ih (appendNew more item)).trans (by rw [first]; rfl)

theorem appendAllNew_distinct [DecidableEq α] (items more : List α) :
    appendAllNew items (distinct more) = appendAllNew items more :=
  appendAllNew_appendAllNew items [] more

theorem distinct_append [DecidableEq α] (items more : List α) :
    distinct (items ++ more) = appendAllNew (distinct items) more :=
  appendAllNew_append [] items more

theorem distinct_of_nodup [DecidableEq α] {items : List α} (apart : items.Nodup) :
    distinct items = items := by
  have each : ∀ front back : List α, (front ++ back).Nodup →
      appendAllNew front back = front ++ back := by
    intro front back apart
    induction back generalizing front with
    | nil => simp [appendAllNew]
    | cons item rest ih =>
      have fresh : item ∉ front := by
        intro member
        exact (List.nodup_append.mp apart).2.2 item member item List.mem_cons_self rfl
      rw [appendAllNew, List.foldl_cons, appendNew, if_neg fresh]
      exact (ih (front ++ [item]) (by simpa using apart)).trans (by simp)
  exact each [] items apart

theorem appendAllNew_erase [DecidableEq α] {items : List α} {item : α} (known : item ∈ items)
    (more : List α) : appendAllNew items (more.erase item) = appendAllNew items more := by
  induction more generalizing items with
  | nil => rfl
  | cons head rest ih =>
    rw [List.erase_cons]
    split
    next same =>
      have spare : appendNew items head = items := if_pos (beq_iff_eq.mp same ▸ known)
      rw [appendAllNew, appendAllNew, List.foldl_cons, spare]
    next => exact ih ((mem_appendNew _ _ _).mpr (.inl known))

theorem map_appendAllNew [DecidableEq α] [DecidableEq β] {f : α → β} {items more : List α}
    (apart : ∀ one ∈ items ++ more, ∀ two ∈ items ++ more, f one = f two → one = two) :
    (appendAllNew items more).map f = appendAllNew (items.map f) (more.map f) := by
  induction more generalizing items with
  | nil => rfl
  | cons item rest ih =>
    have first : (appendNew items item).map f = appendNew (items.map f) (f item) := by
      have known : f item ∈ items.map f ↔ item ∈ items := by
        refine ⟨fun member => ?_, List.mem_map_of_mem⟩
        obtain ⟨other, held, same⟩ := List.mem_map.mp member
        exact apart other (by simp [held]) item (by simp) same ▸ held
      unfold appendNew
      simp only [known]
      split <;> simp
    have later : ∀ other ∈ appendNew items item ++ rest, other ∈ items ++ item :: rest := by
      simp [or_assoc]
    rw [List.map_cons, appendAllNew, appendAllNew, List.foldl_cons, List.foldl_cons, ← first]
    exact ih fun one first two second => apart one (later one first) two (later two second)

theorem map_distinct [DecidableEq α] [DecidableEq β] {f : α → β} {items : List α}
    (apart : ∀ one ∈ items, ∀ two ∈ items, f one = f two → one = two) :
    (distinct items).map f = distinct (items.map f) :=
  map_appendAllNew apart

theorem lookup_first [DecidableEq α] (head other : α) (held : β) (rest : List (α × β)) :
    ((head, held) :: rest).lookup other =
      if other = head then some held else rest.lookup other := by
  by_cases same : other = head
  · simp [same]
  · rw [List.lookup_cons, beq_false_of_ne same, if_neg same]

theorem takeFirst?_length (wanted : α → Bool) (items : List α) (found : α × List α)
    (taken : takeFirst? wanted items = some found) : found.2.length + 1 = items.length := by
  induction items generalizing found with
  | nil => simp [takeFirst?] at taken
  | cons item rest ih =>
    unfold takeFirst? at taken
    split at taken
    · cases taken; rfl
    · obtain ⟨inner, hinner, rfl⟩ := Option.map_eq_some_iff.mp taken
      simpa using ih inner hinner

theorem takeFirst?_map {f : α → β} {wanted : α → Bool} {wanted' : β → Bool}
    (same : ∀ item, wanted' (f item) = wanted item) (items : List α) :
    takeFirst? wanted' (items.map f) =
      (takeFirst? wanted items).map fun (found, others) => (f found, others.map f) := by
  induction items with
  | nil => rfl
  | cons item rest ih =>
    rw [List.map_cons, takeFirst?, takeFirst?, same, ih]
    split
    next => rfl
    next => cases takeFirst? wanted rest <;> rfl

end GraphSql
