import KmreManager.GpuInfo

/-! # What the lookups leave open

Every lookup gives back what it gets hold of, unless the connection has an
error or no descriptor comes with the reply, or more than one. -/
namespace KmreManager.GpuInfo

open Lib.Runs Lib.Ownership

/-- The number of descriptors that come with the reply. -/
def Answers.nfd {ι : Type} (a : Answers ι) : Nat :=
  match a.dri3 with
  | none => 0
  | some fds => fds.length

def Answers.fds {ι : Type} (a : Answers ι) : Finset Resource := (Finset.range a.nfd).image .fd

/-- What a lookup with these answers leaves open. -/
def Answers.leaked {ι : Type} (a : Answers ι) : Finset Resource :=
  if !a.connects then {.connection}
  else if a.screen_number < a.screens then
    if a.nfd = 1 then ∅ else {.connection} ∪ a.fds
  else ∅

/-- There is a connection, and one descriptor where there is a screen. -/
def Answers.Complete {ι : Type} (a : Answers ι) : Prop :=
  a.connects ∧ (a.screen_number < a.screens → a.nfd = 1)

instance {ι : Type} (a : Answers ι) : Decidable a.Complete :=
  inferInstanceAs (Decidable (_ = true ∧ (_ → _)))

variable {ι : Type} {m : Machine ι} {dri_prime : Option QString} {h : Host ι} {a : Answers ι}
  {held : Finset Resource} {fd r : Resource} {i : ι}

theorem leaked_eq_empty : a.leaked = ∅ ↔ a.Complete := by
  unfold Answers.leaked Answers.Complete
  cases a.connects with
  | false => simp
  | true => by_cases hscreen : a.screen_number < a.screens <;> simp [hscreen]

/-! ## The parts of a lookup -/

/-- The tag is kept if there is one. -/
theorem run_constructCalls {owner : Resource} (m : Machine ι) (i : ι) (howner : owner ∈ held)
    (hr : r ∉ held) (hname : .name ∉ held) (hne : r ≠ .name) :
    run check held (constructCalls m owner r i) =
      some (if (drm_construct_id_path_tag (m.device i).businfo).isSome then insert r held
        else held) := by
  have hname' : .name ∉ insert r held := by simpa [Finset.mem_insert, hname] using hne.symm
  have hswap : insert r (insert .name held) = insert .name (insert r held) :=
    Finset.insert_comm _ _ _
  unfold constructCalls
  cases (m.device i).businfo with
  | pci bus => simp [run, check, howner, hr, drm_construct_id_path_tag]
  | platform fullname | host1x fullname =>
    simp [run, check, howner, hr, hne, hname, hname', hswap, drm_construct_id_path_tag]
  | usb bus dev => simp [run, check, howner, drm_construct_id_path_tag]

theorem run_matchCalls (hdevices : .devices ∈ held) (hr : r ∈ held) (htag : .tag ∉ held)
    (hname : .name ∉ held) : run check held (matchCalls m r i) = some held := by
  have hconstructed := run_constructCalls m i hdevices htag hname (by decide)
  have hr' : r ∈ insert .tag held := Finset.mem_insert_of_mem hr
  unfold matchCalls
  refine run_append_some.mpr ⟨_, hconstructed, ?_⟩
  split
  · simp [run, check, hr', htag]
  · rfl

theorem run_search {node : Device → Option DevNumber} {tag : QString} {same : Bool}
    (hlist : .devices ∈ held) (hr : r ∈ held) (htag : .tag ∉ held) (hname : .name ∉ held)
    (devices : List ι) : run check held (search m node r tag same devices).1 = some held := by
  have huse : check held (.use .devices) = some held := check_use.mpr ⟨hlist, rfl⟩
  have hmatch : ∀ i, run check held (.use .devices :: matchCalls m r i) = some held := fun i =>
    run_cons_some.mpr ⟨held, huse, run_matchCalls hlist hr htag hname⟩
  induction devices with
  | nil => rfl
  | cons i devices ih =>
    rw [search]
    split
    · split
      · exact hmatch i
      · exact run_append_some.mpr ⟨held, hmatch i, ih⟩
    · exact run_cons_some.mpr ⟨held, huse, ih⟩

theorem run_nodeCalls (hlist : .devices ∈ held) (found : Option ι) :
    run check held (nodeCalls found) = some held := by
  cases found with
  | none => rfl
  | some i => exact run_cons_some.mpr ⟨held, check_use.mpr ⟨hlist, rfl⟩, rfl⟩

theorem run_id_path_tag (m : Machine ι) (known : Bool) (i : ι) (hfd : fd ∈ held)
    (hdevice : .device ∉ held) (hname : .name ∉ held) (hr : r ∉ held) (hne : r ≠ .device)
    (hne' : r ≠ .name) :
    run check held (drm_get_id_path_tag_for_fd m fd r known i).1 =
      some (if (drm_get_id_path_tag_for_fd m fd r known i).2.isSome then insert r held
        else held) := by
  unfold drm_get_id_path_tag_for_fd
  cases known with
  | false => simp [run, check, hfd]
  | true =>
    have hstart : run check held [.use fd, .acquire .device] = some (insert .device held) := by
      simp [run, check, hfd, hdevice]
    have hconstructed := run_constructCalls m i (Finset.mem_insert_self .device held)
      (by simp [hne, hr]) (by simp [hname]) hne'
    refine run_append_some.mpr ⟨_, run_append_some.mpr ⟨_, hstart, hconstructed⟩, ?_⟩
    cases drm_construct_id_path_tag (m.device i).businfo with
    | none => simp [run, check, hdevice]
    | some tag =>
      have hswap : insert r (insert .device held) = insert .device (insert r held) :=
        Finset.insert_comm _ _ _
      have hdevice' : .device ∉ insert r held := by
        simpa [Finset.mem_insert, hdevice] using hne.symm
      simp [run, check, hswap, hdevice']

theorem run_fds (hheld : ∀ k, .fd k ∉ held) (n : Nat) :
    run check held ((List.range n).map fun k => .acquire (.fd k)) =
      some (held ∪ (Finset.range n).image .fd) := by
  induction n with
  | zero => simp
  | succ n ih =>
    rw [List.range_succ, List.map_append]
    refine run_append_some.mpr ⟨_, ih, run_cons_some.mpr ⟨_, check_acquire.mpr ⟨?_, rfl⟩, ?_⟩⟩
    · simp [hheld]
    · rw [Finset.range_add_one, Finset.image_insert, Finset.union_insert]
      rfl

theorem holds_xcb_open : Holds (xcb_open a).1
    (if a.connects ∧ ¬ a.screen_number < a.screens then ∅ else {.connection}) := by
  unfold xcb_open
  cases a.connects with
  | false =>
    rw [if_neg (c := _ ∧ _) fun hcontra => Bool.false_ne_true hcontra.1]
    exact (by decide : Holds [.acquire Resource.connection, .use .connection] {.connection})
  | true =>
    by_cases hscreen : a.screen_number < a.screens
    · simp only [hscreen]
      decide
    · simp only [hscreen]
      decide

theorem xcb_open_snd : (xcb_open a).2 = true ↔ a.connects ∧ a.screen_number < a.screens := by
  unfold xcb_open
  cases a.connects with
  | false => simp
  | true => by_cases hscreen : a.screen_number < a.screens <;> simp [hscreen]

theorem run_dri3_open :
    run check {.connection} (dri3_open a).1 = some ({.connection} ∪ a.fds) := by
  unfold dri3_open Answers.fds Answers.nfd
  cases a.dri3 with
  | none => rfl
  | some fds =>
    have hfds : run check {Resource.connection} ([.use .connection, .acquire .reply] ++
        (List.range fds.length).map (fun k => .acquire (.fd k)) ++ [.use .reply]) =
          some (insert .reply {.connection} ∪ (Finset.range fds.length).image .fd) := by
      refine run_append_some.mpr ⟨_, run_append_some.mpr ⟨insert .reply {.connection}, by decide,
        run_fds (by simp) _⟩, ?_⟩
      exact run_cons_some.mpr ⟨_, check_use.mpr ⟨by simp, rfl⟩, rfl⟩
    have hfreed : (insert .reply {Resource.connection} ∪
        (Finset.range fds.length).image .fd).erase .reply =
          {.connection} ∪ (Finset.range fds.length).image .fd := by
      rw [Finset.insert_union, Finset.erase_insert (by simp)]
    dsimp only
    split
    · refine run_append_some.mpr ⟨_, hfds, run_cons_some.mpr
        ⟨_, check_release.mpr ⟨?_, hfreed⟩, rfl⟩⟩
      simp
    · rename_i hone
      have hlength : fds.length = 1 := not_not.mp hone
      rw [hlength] at hfds hfreed ⊢
      exact run_append_some.mpr ⟨_, hfds, by decide⟩

theorem dri3_open_snd : (dri3_open a).2.isSome ↔ a.nfd = 1 := by
  unfold dri3_open Answers.nfd
  cases a.dri3 with
  | none => simp
  | some fds =>
    by_cases hone : fds.length = 1
    · obtain ⟨i, rfl⟩ := List.length_eq_one_iff.mp hone
      simp
    · simp [hone]

/-- What is in use while a card is looked for that the user prefers. -/
def asking : Finset Resource := {.default_tag, .prime, .connection, .fd 0}

/-- The descriptor that came, or the one that has taken its place, and no other. -/
theorem run_preferred : run check {.connection, .fd 0} (get_user_preferred_fd m dri_prime a i).1 =
    some {.connection, (get_user_preferred_fd m dri_prime a i).2.1} := by
  unfold get_user_preferred_fd
  cases dri_prime with
  | none => rfl
  | some prime =>
    have hfd : .fd 0 ∈ ({.prime, .connection, .fd 0} : Finset Resource) := by decide
    have hasked := run_id_path_tag (r := .default_tag) m a.default_device i hfd (by decide)
      (by decide) (by decide) (by decide) (by decide)
    have hprime : run check {.connection, .fd 0} [.acquire Resource.prime] =
      some {.prime, .connection, .fd 0} := rfl
    have hfree : run check {.prime, .connection, .fd 0} [.release Resource.prime] =
      some {.connection, .fd 0} := by decide
    have hfreed : run check asking [.release Resource.default_tag, .release .prime] =
      some {.connection, .fd 0} := by decide
    generalize drm_get_id_path_tag_for_fd m (.fd 0) .default_tag a.default_device i = asked
      at hasked ⊢
    obtain ⟨calls, default_tag⟩ := asked
    cases default_tag with
    | none => exact run_append_some.mpr ⟨_, run_append_some.mpr ⟨_, hprime, hasked⟩, hfree⟩
    | some tag =>
      have hstart : run check {.connection, .fd 0} ([.acquire Resource.prime] ++ calls) =
        some asking := run_append_some.mpr ⟨_, hprime, hasked⟩
      cases a.devices with
      | none => exact run_append_some.mpr ⟨_, hstart, hfreed⟩
      | some devices =>
        have hdevices : run check asking [.acquire Resource.devices, .use .prime] =
          some (insert .devices asking) := by decide
        have hback : run check (insert .devices asking) [.release Resource.devices] =
          some asking := by decide
        have hclosed : run check (insert .devices asking)
            [.use Resource.devices, .release .devices] = some asking := by decide
        have hswitch : run check (insert .devices asking)
            ([.use Resource.devices, .acquire .preferred, .release .devices, .release (.fd 0)] ++
              [.release .default_tag, .release .prime]) =
          some {.connection, .preferred} := by decide
        have hsearched : run check (insert .devices asking)
            (if prime = "1".toList then search m Device.render .default_tag tag false devices
              else search m Device.render .prime prime true devices).1 =
          some (insert .devices asking) := by
          split
          · exact run_search (by decide) (by decide) (by decide) (by decide) devices
          · exact run_search (by decide) (by decide) (by decide) (by decide) devices
        dsimp only
        generalize (if prime = "1".toList then search m Device.render .default_tag tag false devices
          else search m Device.render .prime prime true devices) = searched at hsearched ⊢
        obtain ⟨more, found⟩ := searched
        have hfound := run_append_some.mpr
          ⟨_, run_append_some.mpr ⟨_, hstart, hdevices⟩, hsearched⟩
        cases found with
        | none =>
          exact run_append_some.mpr ⟨_, run_append_some.mpr ⟨_, hfound, hback⟩, hfreed⟩
        | some j =>
          dsimp only
          cases a.opens with
          | false =>
            exact run_append_some.mpr ⟨_, run_append_some.mpr ⟨_, hfound, hclosed⟩, hfreed⟩
          | true =>
            rw [if_pos rfl, List.append_assoc]
            exact run_append_some.mpr ⟨_, hfound, hswitch⟩

theorem preferred_fd : (get_user_preferred_fd m dri_prime a i).2.1 = .fd 0 ∨
    (get_user_preferred_fd m dri_prime a i).2.1 = .preferred := by
  unfold get_user_preferred_fd
  cases dri_prime with
  | none => exact .inl rfl
  | some prime =>
    dsimp only
    split
    · exact .inl rfl
    · split
      · exact .inl rfl
      · split
        · exact .inl rfl
        · split
          · exact .inr rfl
          · exact .inl rfl

/-! ## A lookup -/

/-- A lookup that gets no descriptor leaves what it leaves, the others go on
with the connection and the descriptor in use. -/
theorem connect_holds (m : Machine ι) (dri_prime : Option QString) (a : Answers ι) :
    ((connect m dri_prime a).2 = none ∧ Holds (connect m dri_prime a).1 a.leaked) ∨
      ∃ fd i, (connect m dri_prime a).2 = some (fd, i) ∧ (fd = .fd 0 ∨ fd = .preferred) ∧
        Holds (connect m dri_prime a).1 {.connection, fd} ∧ a.leaked = ∅ := by
  have hopen := holds_xcb_open (a := a)
  have hopened := xcb_open_snd (a := a)
  have hdri3 := run_dri3_open (a := a)
  have hfd := dri3_open_snd (a := a)
  unfold connect Answers.leaked
  generalize xcb_open a = opening at hopen hopened ⊢
  generalize dri3_open a = reply at hdri3 hfd ⊢
  obtain ⟨calls, opened⟩ := opening
  obtain ⟨more, found⟩ := reply
  cases opened with
  | false =>
    refine .inl ⟨rfl, ?_⟩
    cases hconnects : a.connects with
    | false => simpa [hconnects] using hopen
    | true =>
      have hscreen : ¬ a.screen_number < a.screens := fun hcontra =>
        Bool.false_ne_true (hopened.mpr ⟨hconnects, hcontra⟩)
      simpa [hconnects, hscreen] using hopen
  | true =>
    obtain ⟨hconnects, hscreen⟩ := hopened.mp rfl
    have hheld : Holds (calls ++ more) ({.connection} ∪ a.fds) := by
      rw [if_neg fun hcontra => hcontra.2 hscreen] at hopen
      exact hopen.append hdri3
    cases found with
    | none =>
      have hnone : a.nfd ≠ 1 := fun hone => Bool.false_ne_true (hfd.mpr hone)
      refine .inl ⟨rfl, ?_⟩
      simpa [hconnects, hscreen, hnone] using hheld
    | some i =>
      have hone : a.nfd = 1 := hfd.mp rfl
      have hfds : {.connection} ∪ a.fds = {.connection, .fd 0} := by
        rw [Answers.fds, hone]
        rfl
      rw [hfds] at hheld
      refine .inr ⟨_, _, rfl, preferred_fd, hheld.append run_preferred, ?_⟩
      simp [hconnects, hscreen, hone]

theorem get_gpu_pci_info_holds : Holds (get_gpu_pci_info m dri_prime a).1 a.leaked := by
  have hconnect := connect_holds m dri_prime a
  unfold get_gpu_pci_info
  generalize connect m dri_prime a = connected at hconnect ⊢
  obtain ⟨calls, chosen⟩ := connected
  rcases hconnect with ⟨hnone, hheld⟩ | ⟨fd, i, hsome, hfd, hheld, hleaked⟩
  · obtain rfl : chosen = none := hnone
    exact hheld
  · obtain rfl : chosen = some (fd, i) := hsome
    have hids : run check {.connection, fd} (drm_get_pci_id_for_fd m a fd i).1 =
        some {.connection, fd} := by
      unfold drm_get_pci_id_for_fd
      rcases hfd with rfl | rfl <;> split <;> rfl
    have hclosed : run check {.connection, fd} [.release fd, .release .connection] = some ∅ := by
      rcases hfd with rfl | rfl <;> decide
    rw [hleaked]
    exact (hheld.append hids).append hclosed

theorem lookupNumbers_holds : Holds (lookupNumbers m dri_prime a).1 a.leaked := by
  have hconnect := connect_holds m dri_prime a
  unfold lookupNumbers
  generalize connect m dri_prime a = connected at hconnect ⊢
  obtain ⟨calls, chosen⟩ := connected
  rcases hconnect with ⟨hnone, hheld⟩ | ⟨fd, i, hsome, hfd, hheld, hleaked⟩
  · obtain rfl : chosen = none := hnone
    exact hheld
  · obtain rfl : chosen = some (fd, i) := hsome
    have hnot : ∀ r ∈ [Resource.device, .name, .id_path_tag, .devices, .tag], r ≠ fd := by
      rcases hfd with rfl | rfl <;> decide
    have hdisconnect : run check {.connection, fd} [.release .connection] = some {fd} := by
      rcases hfd with rfl | rfl <;> decide
    have hasked := run_id_path_tag (r := .id_path_tag) m a.device i (Finset.mem_singleton_self fd)
      (by simpa using hnot .device (by simp)) (by simpa using hnot .name (by simp))
      (by simpa using hnot .id_path_tag (by simp)) (by decide) (by decide)
    have hclose : run check {fd} [.release fd] = some ∅ := by
      rcases hfd with rfl | rfl <;> decide
    have hclosed : run check {.id_path_tag, fd} [.release .id_path_tag, .release fd] =
        some ∅ := by
      rcases hfd with rfl | rfl <;> decide
    dsimp only
    generalize drm_get_id_path_tag_for_fd m fd .id_path_tag a.device i = asked at hasked ⊢
    obtain ⟨more, tag⟩ := asked
    have hstart := (hheld.append hdisconnect).append hasked
    rw [hleaked]
    cases tag with
    | none => exact hstart.append hclose
    | some tag =>
      cases a.nodes with
      | none => exact hstart.append hclosed
      | some devices =>
        have hdevices : run check {.id_path_tag, fd} [.acquire .devices] =
            some {.devices, .id_path_tag, fd} := by
          rcases hfd with rfl | rfl <;> decide
        have hsearched : ∀ node, run check {.devices, .id_path_tag, fd}
            (search m node .id_path_tag tag true devices).1 =
              some {.devices, .id_path_tag, fd} := fun node =>
          run_search (by simp) (by simp) (by simpa using hnot .tag (by simp))
            (by simpa using hnot .name (by simp)) devices
        have hread : ∀ found : Option ι, run check {.devices, .id_path_tag, fd} (nodeCalls found) =
            some {.devices, .id_path_tag, fd} := run_nodeCalls (by simp)
        have hback : run check {.devices, .id_path_tag, fd}
            [.release .devices, .release .id_path_tag, .release fd] = some ∅ := by
          rcases hfd with rfl | rfl <;> decide
        exact (((((hstart.append hdevices).append (hsearched _)).append (hread _)).append
          (hsearched _)).append (hread _)).append hback

/-! ## All lookups -/

/-- What has been acquired was released, but for what single lookups have left. -/
def Ledger (h : Host ι) : Prop :=
  ∃ held, Holds h.calls held ∧
    ∀ n r, (n, r) ∈ held ↔ ∃ a, h.lookups[n]? = some a ∧ r ∈ a.leaked

theorem Ledger.ask {calls : Calls} (hh : Ledger h) (hcalls : Holds calls a.leaked) :
    Ledger (h.ask a calls) := by
  obtain ⟨held, hholds, hmem⟩ := hh
  have hnew : ∀ r, (h.lookups.length, r) ∉ held := fun r hr => by
    obtain ⟨a, ha, -⟩ := (hmem _ r).mp hr
    exact absurd ha (by simp)
  refine ⟨_, hholds.append (hcalls.scope (Prod.mk_right_injective _) hnew), fun n r => ?_⟩
  have himage : (n, r) ∈ a.leaked.image (Prod.mk h.lookups.length) ↔
      n = h.lookups.length ∧ r ∈ a.leaked := by
    simp only [Finset.mem_image, Prod.mk.injEq]
    exact ⟨fun ⟨r', hr', hn, hr⟩ => ⟨hn.symm, hr ▸ hr'⟩, fun ⟨hn, hr⟩ => ⟨r, hr, hn.symm, rfl⟩⟩
  rw [Finset.mem_union, hmem, himage, Host.ask, List.getElem?_append]
  rcases Nat.lt_trichotomy n h.lookups.length with hlt | rfl | hgt
  · simp [hlt, Nat.ne_of_lt hlt]
  · simp
  · have hnone : [a][n - h.lookups.length]? = none :=
      List.getElem?_eq_none (by simp; omega)
    simp [hnone, Nat.not_lt_of_gt hgt, Nat.ne_of_gt hgt]

theorem step_ledger {action : Action ι} {h' : Host ι} (hh : Ledger h)
    (ha : step m dri_prime h action = some h') : Ledger h' := by
  have hids : ∀ h a, Ledger h → Ledger ((h.ask a (get_gpu_pci_info m dri_prime a).1).setIds
      (get_gpu_pci_info m dri_prime a).2) := by
    intro h a hh
    cases (get_gpu_pci_info m dri_prime a).2 <;> exact hh.ask get_gpu_pci_info_holds
  have hneed : ∀ a, Ledger (h.needIds m dri_prime a) := by
    intro a
    unfold Host.needIds
    split
    · exact hids h a hh
    · exact hh
  cases action with
  | getGpuVendorFromDrm a =>
    obtain rfl := Option.some.inj ha
    unfold Host.getGpuVendorFromDrm
    split
    · exact hh
    · split
      · exact hh
      · exact hids h a hh
  | preferI965 a => exact Option.some.inj ha ▸ hneed a
  | isIntelIrisGpu a => exact Option.some.inj ha ▸ hh.ask get_gpu_pci_info_holds
  | couldUsesDrmMode a => exact Option.some.inj ha ▸ hneed a
  | couldUseIntelGralloc a => exact Option.some.inj ha ▸ hneed a
  | getDrmDeviceNodeNumber a =>
    obtain rfl := Option.some.inj ha
    have hnumbers : ∀ primary render,
        Ledger (((h.ask a (lookupNumbers m dri_prime a).1).setPrimary primary).setRender render) :=
      fun primary render => by
        cases primary <;> cases render <;> exact hh.ask lookupNumbers_holds
    have hread : Ledger (h.get_drm_device_node_number m dri_prime a) := by
      unfold Host.get_drm_device_node_number
      split
      · exact hh
      · exact hnumbers _ _
    unfold Host.getDrmDeviceNodeNumber
    dsimp only
    split
    · exact hread
    · split
      · exact hread
      · exact hread

/-- **What stays open.** In every run of lookups, whatever they are told, nothing
is closed or freed that is not held, and nothing is used after it was. What is
left in the end are the connections without a descriptor to go on with, and the
descriptors of the replies that bring more than one. Nothing is left exactly if
each lookup has a connection, and one descriptor if it has a screen. -/
theorem lookups_leaked {actions : List (Action ι)}
    (hrun : run (step m dri_prime) {} actions = some h) :
    ∃ held, Holds h.calls held ∧
      (∀ n r, (n, r) ∈ held ↔ ∃ a, h.lookups[n]? = some a ∧ r ∈ a.leaked) ∧
        (held = ∅ ↔ ∀ a ∈ h.lookups, a.Complete) := by
  have hstart : Ledger ({} : Host ι) := ⟨∅, holds_nil, by simp⟩
  obtain ⟨held, hholds, hmem⟩ := run_invariant (I := Ledger) (fun _ _ _ => step_ledger) hstart hrun
  refine ⟨held, hholds, hmem, ?_⟩
  constructor
  · intro hempty a ha
    obtain ⟨n, hn⟩ := List.mem_iff_getElem?.mp ha
    refine leaked_eq_empty.mp (Finset.eq_empty_of_forall_notMem fun r hr => ?_)
    have hheld := (hmem n r).mpr ⟨a, hn, hr⟩
    rw [hempty] at hheld
    exact Finset.notMem_empty _ hheld
  · intro hcomplete
    refine Finset.eq_empty_of_forall_notMem fun x hx => ?_
    obtain ⟨a, ha, hr⟩ := (hmem x.1 x.2).mp hx
    rw [leaked_eq_empty.mpr (hcomplete a (List.mem_of_getElem? ha))] at hr
    exact Finset.notMem_empty _ hr

/-- The X server is not there yet, then sends two descriptors, then one. -/
def impatient : List (Action (Bool)) :=
  [.couldUsesDrmMode { wellDone with connects := false },
    .couldUseIntelGralloc { wellDone with dri3 := some [true, false] },
    .getGpuVendorFromDrm wellDone, .getDrmDeviceNodeNumber wellDone]

theorem impatient_leaked : ∃ h held,
    run (step laptop (some "1".toList)) {} impatient = some h ∧ Holds h.calls held ∧
      (0, .connection) ∈ held ∧ (1, .fd 1) ∈ held ∧ held ≠ ∅ := by
  have hend : (run (step laptop (some "1".toList)) {} impatient).map Host.lookups =
      some [{ wellDone with connects := false }, { wellDone with dri3 := some [true, false] },
        wellDone, wellDone] := by
    decide +kernel
  obtain ⟨h, hrun, hlookups⟩ := Option.map_eq_some_iff.mp hend
  obtain ⟨held, hholds, hmem, -⟩ := lookups_leaked hrun
  rw [hlookups] at hmem
  have hfirst : (0, .connection) ∈ held := (hmem 0 .connection).mpr ⟨_, rfl, by decide⟩
  exact ⟨h, held, hrun, hholds, hfirst, (hmem 1 (.fd 1)).mpr ⟨_, rfl, by decide⟩,
    Finset.ne_empty_of_mem hfirst⟩

end KmreManager.GpuInfo
