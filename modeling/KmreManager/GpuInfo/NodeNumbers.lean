import KmreManager.GpuInfo
import Mathlib.Data.Fintype.Basic

/-! # The numbers of the device nodes

The numbers are kept until all four are known, and a lookup may read those of
one node only. What it reads is of one device. -/
namespace KmreManager.GpuInfo

open Lib.Runs DisplayTypeManager

variable {ι : Type} {m : Machine ι} {dri_prime : Option QString} {h h' : Host ι} {a : Answers ι}
  {i j : ι}

def DevNumber.ints (n : DevNumber) : Int × Int := (n.major, n.minor)

def Host.primaryNumber (h : Host ι) : Int × Int := (h.drmPrimaryNodeMajor, h.drmPrimaryNodeMinor)

def Host.renderNumber (h : Host ι) : Int × Int := (h.drmRenderNodeMajor, h.drmRenderNodeMinor)

def unknown : Int × Int := (-1, -1)

/-- The kept number is that of the device's node. -/
def Keeps (m : Machine ι) (node : Device → Option DevNumber) (kept : Int × Int) (i : ι) : Prop :=
  (node (m.device i)).map DevNumber.ints = some kept

/-- The numbers that were returned are those of one device. -/
def OneDevice (m : Machine ι) (h : Host ι) : Prop :=
  ∀ n ∈ h.returned, ∃ i, Keeps m Device.primary (n.primaryMajor, n.primaryMinor) i ∧
    Keeps m Device.render (n.renderMajor, n.renderMinor) i

/-- If the number of a node was read, the one that is kept of the other node is
unknown or of the same device. -/
def Agrees (m : Machine ι) (node other : Device → Option DevNumber) (read : Option DevNumber)
    (kept : Int × Int) : Prop :=
  ∀ i, read.isSome → read = node (m.device i) → kept = unknown ∨ Keeps m other kept i

/-- A lookup that reads the number of one node only finds none of the other
node, or that of the same device. -/
def Settled (m : Machine ι) (dri_prime : Option QString) (h : Host ι) : Action ι → Prop
  | .getDrmDeviceNodeNumber a =>
    let n := (lookupNumbers m dri_prime a).2
    h.hasNumbers = false →
      (n.render = none → Agrees m Device.primary Device.render n.primary h.renderNumber) ∧
        (n.primary = none → Agrees m Device.render Device.primary n.render h.primaryNumber)
  | _ => True

instance (m : Machine ι) (node : Device → Option DevNumber) (kept : Int × Int) (i : ι) :
    Decidable (Keeps m node kept i) :=
  inferInstanceAs (Decidable (_ = _))

instance [Fintype ι] (m : Machine ι) (node other : Device → Option DevNumber)
    (read : Option DevNumber) (kept : Int × Int) : Decidable (Agrees m node other read kept) :=
  inferInstanceAs (Decidable (∀ _, _ = _ → _ = _ → _ = _ ∨ Keeps m other kept _))

instance [Fintype ι] (h : Host ι) : ∀ a : Action ι, Decidable (Settled m dri_prime h a)
  | .getDrmDeviceNodeNumber _ =>
    inferInstanceAs (Decidable (_ = _ → (_ = _ → Agrees _ _ _ _ _) ∧ (_ = _ → Agrees _ _ _ _ _)))
  | .getGpuVendorFromDrm _ | .preferI965 _ | .isIntelIrisGpu _ | .couldUsesDrmMode _
  | .couldUseIntelGralloc _ => .isTrue trivial

/-! ## What a lookup reads -/

theorem search_found {node : Device → Option DevNumber} {r : Resource} {tag : QString}
    {devices : List ι} (h : (search m node r tag true devices).2 = some i) :
    drm_construct_id_path_tag (m.device i).businfo = some tag := by
  induction devices with
  | nil => exact absurd h (Option.some_ne_none i).symm
  | cons j devices ih =>
    rw [search] at h
    split at h
    · split at h
      · rename_i hmatch
        obtain rfl := Option.some.inj h
        exact of_decide_eq_true hmatch
      · exact ih h
    · exact ih h

/-- The numbers that a lookup reads are of one device. -/
theorem lookupNumbers_one (m : Machine ι) (dri_prime : Option QString) (a : Answers ι) :
    (lookupNumbers m dri_prime a).2 = {} ∨ ∃ i,
      ((lookupNumbers m dri_prime a).2.primary = none ∨
        (lookupNumbers m dri_prime a).2.primary = (m.device i).primary) ∧
      ((lookupNumbers m dri_prime a).2.render = none ∨
        (lookupNumbers m dri_prime a).2.render = (m.device i).render) := by
  unfold lookupNumbers
  generalize connect m dri_prime a = connected
  obtain ⟨calls, chosen⟩ := connected
  cases chosen with
  | none => exact .inl rfl
  | some chosen =>
    obtain ⟨fd, i⟩ := chosen
    have htag : ∀ tag, (drm_get_id_path_tag_for_fd m fd .id_path_tag a.device i).2 = some tag →
        drm_construct_id_path_tag (m.device i).businfo = some tag := by
      intro tag htag
      unfold drm_get_id_path_tag_for_fd at htag
      split at htag
      · exact absurd htag (Option.some_ne_none tag).symm
      · exact htag
    dsimp only
    generalize drm_get_id_path_tag_for_fd m fd .id_path_tag a.device i = asked at htag ⊢
    obtain ⟨more, tag⟩ := asked
    cases tag with
    | none => exact .inl rfl
    | some tag =>
      cases a.nodes with
      | none => exact .inl rfl
      | some devices =>
        have hread : ∀ (stat : Bool) (node : Device → Option DevNumber),
            (if stat then
                (search m node .id_path_tag tag true devices).2.bind fun j => node (m.device j)
              else none) = none ∨
            (if stat then
                (search m node .id_path_tag tag true devices).2.bind fun j => node (m.device j)
              else none) = node (m.device i) := by
          intro stat node
          cases hfound : (search m node .id_path_tag tag true devices).2 with
          | none => cases stat <;> exact .inl rfl
          | some j =>
            obtain rfl := m.tag_unique (htag tag rfl) (search_found hfound)
            cases stat with
            | false => exact .inl rfl
            | true => exact .inr rfl
        exact .inr ⟨i, hread a.statPrimary Device.primary, hread a.statRender Device.render⟩

/-! ## What is kept -/

theorem setPrimary_returned (n : Option DevNumber) : (h.setPrimary n).returned = h.returned := by
  cases n <;> rfl

theorem setRender_returned (n : Option DevNumber) : (h.setRender n).returned = h.returned := by
  cases n <;> rfl

def Host.numbers (h : Host ι) : NodeNumbers where
  primaryMajor := h.drmPrimaryNodeMajor
  primaryMinor := h.drmPrimaryNodeMinor
  renderMajor := h.drmRenderNodeMajor
  renderMinor := h.drmRenderNodeMinor

/-- `getDrmDeviceNodeNumber` returns the numbers if all are known. -/
def Host.tell (h : Host ι) : Host ι :=
  if h.hasNumbers then { h with returned := h.returned ++ [h.numbers] } else h

theorem getDrmDeviceNodeNumber_eq : h.getDrmDeviceNodeNumber m dri_prime a =
    (h.get_drm_device_node_number m dri_prime a).tell := by
  unfold Host.getDrmDeviceNodeNumber Host.tell
  generalize h.get_drm_device_node_number m dri_prime a = g
  by_cases hknown : g.hasNumbers = true
  · have hall := hknown
    simp only [Host.hasNumbers, Bool.and_eq_true, decide_eq_true_eq] at hall
    obtain ⟨⟨⟨hmajor, hminor⟩, hmajor'⟩, hminor'⟩ := hall
    dsimp only
    rw [if_neg (by simp [hknown]), if_neg (by omega), if_pos hknown]
    rfl
  · dsimp only
    rw [if_pos (by simpa using hknown), if_neg hknown]

/-- The numbers that were returned are those that are kept. -/
def Constant (h : Host ι) : Prop :=
  ∀ n ∈ h.returned, h.hasNumbers = true ∧ n = h.numbers

theorem Constant.nil (hnone : h.returned = []) : Constant h := fun n hn => by
  rw [hnone] at hn
  exact absurd hn List.not_mem_nil

theorem Constant.tell (hh : Constant h) : Constant h.tell := by
  unfold Host.tell
  split
  · rename_i hhas
    intro n hn
    rcases List.mem_append.mp hn with hn | hn
    · exact hh n hn
    · exact ⟨hhas, List.mem_singleton.mp hn⟩
  · exact hh

theorem hasNumbers_congr (hprimary : h'.primaryNumber = h.primaryNumber)
    (hrender : h'.renderNumber = h.renderNumber) :
    h'.hasNumbers = h.hasNumbers ∧ h'.numbers = h.numbers := by
  obtain ⟨hmajor, hminor⟩ := Prod.mk.inj hprimary
  obtain ⟨hmajor', hminor'⟩ := Prod.mk.inj hrender
  unfold Host.hasNumbers Host.numbers
  rw [hmajor, hminor, hmajor', hminor']
  exact ⟨rfl, rfl⟩

theorem Keeps.nonneg {node : Device → Option DevNumber} {kept : Int × Int}
    (hk : Keeps m node kept i) : 0 ≤ kept.1 ∧ 0 ≤ kept.2 := by
  obtain ⟨n, -, rfl⟩ := Option.map_eq_some_iff.mp hk
  exact ⟨Int.natCast_nonneg _, Int.natCast_nonneg _⟩

theorem Keeps.known {node : Device → Option DevNumber} {kept : Int × Int}
    (hk : Keeps m node kept i) : kept ≠ unknown := by
  rintro rfl
  exact absurd hk.nonneg.1 (by decide)

theorem ints_injective : Function.Injective DevNumber.ints := by
  rintro ⟨major, minor⟩ ⟨major', minor'⟩ h
  obtain ⟨hmajor, hminor⟩ := Prod.mk.inj h
  obtain rfl : major = major' := Int.natCast_inj.mp hmajor
  obtain rfl : minor = minor' := Int.natCast_inj.mp hminor
  rfl

/-- The nodes of the devices have different numbers. -/
def Unique (m : Machine ι) (node : Device → Option DevNumber) : Prop :=
  ∀ i j n, node (m.device i) = some n → node (m.device j) = some n → i = j

theorem Keeps.unique {node : Device → Option DevNumber} {kept : Int × Int} (hu : Unique m node)
    (hi : Keeps m node kept i) (hj : Keeps m node kept j) : i = j := by
  obtain ⟨n, hn, hkept⟩ := Option.map_eq_some_iff.mp hi
  obtain ⟨n', hn', hkept'⟩ := Option.map_eq_some_iff.mp hj
  obtain rfl := ints_injective (hkept.trans hkept'.symm)
  exact hu i j n hn hn'

/-- One node's number was read: those of two nodes are of one device now, or
one of them is unknown, or they are of two. -/
theorem one_read {node other : Device → Option DevNumber} {kept : Int × Int} {n : DevNumber}
    (hnode : Unique m node) (hother : Unique m other) (hn : node (m.device i) = some n)
    (hkept : kept = unknown ∨ ∃ j, Keeps m other kept j) :
    (Agrees m node other (some n) kept ∧ (kept = unknown ∨ Keeps m other kept i)) ∨
      (¬ Agrees m node other (some n) kept ∧ kept ≠ unknown ∧
        ¬ ∃ k, Keeps m node n.ints k ∧ Keeps m other kept k) := by
  rcases hkept with hunknown | ⟨j, hj⟩
  · exact .inl ⟨fun _ _ _ => .inl hunknown, .inl hunknown⟩
  · by_cases hij : i = j
    · subst hij
      refine .inl ⟨fun k _ hk => .inr ?_, .inr hj⟩
      obtain rfl := hnode i k n hn hk.symm
      exact hj
    · refine .inr ⟨fun hagrees => ?_, hj.known, ?_⟩
      · rcases hagrees i rfl hn.symm with hunknown | hi
        · exact hj.known hunknown
        · exact hij (hi.unique hother hj)
      · rintro ⟨k, hk, hk'⟩
        have hi : Keeps m node n.ints i := Option.map_eq_some_iff.mpr ⟨n, hn, rfl⟩
        exact hij ((hi.unique hnode hk).trans (hk'.unique hother hj))

/-! ## Runs -/

structure Sound (m : Machine ι) (h : Host ι) : Prop where
  primary : h.primaryNumber = unknown ∨ ∃ i, Keeps m Device.primary h.primaryNumber i
  render : h.renderNumber = unknown ∨ ∃ i, Keeps m Device.render h.renderNumber i
  same : h.primaryNumber ≠ unknown → h.renderNumber ≠ unknown →
    ∃ i, Keeps m Device.primary h.primaryNumber i ∧ Keeps m Device.render h.renderNumber i
  returned : Constant h

/-- Nothing has changed that matters here. -/
theorem Sound.congr (hh : Sound m h) (hprimary : h'.primaryNumber = h.primaryNumber)
    (hrender : h'.renderNumber = h.renderNumber) (hreturned : h'.returned = h.returned) :
    Sound m h' := by
  obtain ⟨hhas, hnumbers⟩ := hasNumbers_congr hprimary hrender
  refine ⟨?_, ?_, ?_, ?_⟩
  · rw [hprimary]; exact hh.primary
  · rw [hrender]; exact hh.render
  · rw [hprimary, hrender]; exact hh.same
  · unfold Constant
    rw [hreturned, hhas, hnumbers]
    exact hh.returned

theorem hasNumbers_iff (hprimary : h.primaryNumber = unknown ∨
      ∃ i, Keeps m Device.primary h.primaryNumber i)
    (hrender : h.renderNumber = unknown ∨ ∃ i, Keeps m Device.render h.renderNumber i) :
    h.hasNumbers = true ↔ h.primaryNumber ≠ unknown ∧ h.renderNumber ≠ unknown := by
  have hhas : h.hasNumbers = true ↔ (0 ≤ h.primaryNumber.1 ∧ 0 ≤ h.primaryNumber.2) ∧
      0 ≤ h.renderNumber.1 ∧ 0 ≤ h.renderNumber.2 := by
    simp [Host.hasNumbers, Host.primaryNumber, Host.renderNumber, and_assoc]
  rw [hhas]
  refine and_congr ⟨?_, fun hne => ?_⟩ ⟨?_, fun hne => ?_⟩
  · intro hnonneg heq
    rw [heq] at hnonneg
    exact absurd hnonneg.1 (by decide)
  · obtain ⟨i, hi⟩ := hprimary.resolve_left hne
    exact hi.nonneg
  · intro hnonneg heq
    rw [heq] at hnonneg
    exact absurd hnonneg.1 (by decide)
  · obtain ⟨i, hi⟩ := hrender.resolve_left hne
    exact hi.nonneg

theorem Sound.oneDevice (hh : Sound m h) : OneDevice m h := by
  intro n hn
  obtain ⟨hhas, rfl⟩ := hh.returned n hn
  obtain ⟨hprimary, hrender⟩ := (hasNumbers_iff hh.primary hh.render).mp hhas
  exact hh.same hprimary hrender

/-- The numbers are returned, if there are some. -/
theorem Sound.tell (hh : Sound m h) : Sound m h.tell := by
  have hprimary : h.tell.primaryNumber = h.primaryNumber := by
    unfold Host.tell
    split <;> rfl
  have hrender : h.tell.renderNumber = h.renderNumber := by
    unfold Host.tell
    split <;> rfl
  refine ⟨hprimary ▸ hh.primary, hrender ▸ hh.render, ?_, hh.returned.tell⟩
  rw [hprimary, hrender]
  exact hh.same

/-- Numbers of two devices are returned. -/
theorem not_oneDevice_tell (hhas : h.hasNumbers = true)
    (hno : ¬ ∃ k, Keeps m Device.primary h.primaryNumber k ∧
      Keeps m Device.render h.renderNumber k) :
    ¬ OneDevice m h.tell := by
  intro hone
  unfold Host.tell at hone
  rw [if_pos hhas] at hone
  exact hno (hone h.numbers (List.mem_append_right _ (List.mem_singleton_self _)))

section Read
variable {g : Host ι} {p r : DevNumber}

theorem keeps_of_read {node : Device → Option DevNumber} {n : DevNumber} {kept : Int × Int}
    (hn : node (m.device i) = some n) (hkept : kept = n.ints) : Keeps m node kept i :=
  Option.map_eq_some_iff.mpr ⟨n, hn, hkept.symm⟩

/-- The lookup has read the number of the primary node only. -/
theorem primary_read (hh : Sound m h) (hp : (m.device i).primary = some p)
    (hprimary : g.primaryNumber = p.ints) (hrender : g.renderNumber = h.renderNumber)
    (hreturned : g.returned = []) :
    (Agrees m Device.primary Device.render (some p) h.renderNumber ∧ Sound m g.tell) ∨
      (¬ Agrees m Device.primary Device.render (some p) h.renderNumber ∧
        ¬ OneDevice m g.tell) := by
  have hpi : Keeps m Device.primary g.primaryNumber i := keeps_of_read hp hprimary
  have hkept : g.renderNumber = unknown ∨ ∃ j, Keeps m Device.render g.renderNumber j :=
    hrender ▸ hh.render
  rw [← hrender]
  rcases one_read m.primary m.render hp hkept with ⟨hagrees, hsame⟩ | ⟨hdiffers, hknown, htwo⟩
  · refine .inl ⟨hagrees, Sound.tell ⟨.inr ⟨i, hpi⟩, hkept, fun _ hne => ?_, .nil hreturned⟩⟩
    exact ⟨i, hpi, hsame.resolve_left hne⟩
  · refine .inr ⟨hdiffers, not_oneDevice_tell ?_ (hprimary ▸ htwo)⟩
    exact (hasNumbers_iff (.inr ⟨i, hpi⟩) hkept).mpr ⟨hpi.known, hknown⟩

/-- The lookup has read the number of the render node only. -/
theorem render_read (hh : Sound m h) (hr : (m.device i).render = some r)
    (hprimary : g.primaryNumber = h.primaryNumber) (hrender : g.renderNumber = r.ints)
    (hreturned : g.returned = []) :
    (Agrees m Device.render Device.primary (some r) h.primaryNumber ∧ Sound m g.tell) ∨
      (¬ Agrees m Device.render Device.primary (some r) h.primaryNumber ∧
        ¬ OneDevice m g.tell) := by
  have hri : Keeps m Device.render g.renderNumber i := keeps_of_read hr hrender
  have hkept : g.primaryNumber = unknown ∨ ∃ j, Keeps m Device.primary g.primaryNumber j :=
    hprimary ▸ hh.primary
  rw [← hprimary]
  rcases one_read m.render m.primary hr hkept with ⟨hagrees, hsame⟩ | ⟨hdiffers, hknown, htwo⟩
  · refine .inl ⟨hagrees, Sound.tell ⟨hkept, .inr ⟨i, hri⟩, fun hne _ => ?_, .nil hreturned⟩⟩
    exact ⟨i, hsame.resolve_left hne, hri⟩
  · refine .inr ⟨hdiffers, not_oneDevice_tell ?_ ?_⟩
    · exact (hasNumbers_iff hkept (.inr ⟨i, hri⟩)).mpr ⟨hknown, hri.known⟩
    · rintro ⟨k, hk, hk'⟩
      exact htwo ⟨k, hrender ▸ hk', hk⟩

end Read

/-- What `getDrmDeviceNodeNumber` does. -/
theorem step_numbers (hh : Sound m h) :
    (Settled m dri_prime h (.getDrmDeviceNodeNumber a) ∧
        Sound m (h.getDrmDeviceNodeNumber m dri_prime a)) ∨
      (¬ Settled m dri_prime h (.getDrmDeviceNodeNumber a) ∧
        ¬ OneDevice m (h.getDrmDeviceNodeNumber m dri_prime a)) := by
  rw [getDrmDeviceNodeNumber_eq]
  unfold Host.get_drm_device_node_number Settled
  by_cases hhas : h.hasNumbers = true
  · rw [if_pos hhas]
    exact .inl ⟨fun hnot => absurd hhas (by simp [hnot]), hh.tell⟩
  rw [if_neg hhas]
  have hreturned : h.returned = [] :=
    List.eq_nil_iff_forall_not_mem.mpr fun n hn => hhas (hh.returned n hn).1
  have hlooks : ∀ {p : Prop}, (h.hasNumbers = false → p) ↔ p :=
    ⟨fun hp => hp (by simpa using hhas), fun hp _ => hp⟩
  have hone := lookupNumbers_one m dri_prime a
  dsimp only
  rw [hlooks]
  generalize lookupNumbers m dri_prime a = looked at hone ⊢
  obtain ⟨calls, primary, render⟩ := looked
  dsimp only at hone ⊢
  have hnoread : ∀ {node other : Device → Option DevNumber} {kept : Int × Int},
      Agrees m node other none kept := fun _ hsome => absurd hsome (by simp)
  cases primary with
  | none =>
    cases render with
    | none =>
      have hsame : Sound m (((h.ask a calls).setPrimary none).setRender none) :=
        hh.congr rfl rfl rfl
      exact .inl ⟨⟨fun _ => hnoread, fun _ => hnoread⟩, hsame.tell⟩
    | some r =>
      obtain ⟨i, -, hr⟩ := hone.resolve_left (by simp)
      have hread := render_read (g := (h.ask a calls).setRender (some r)) hh
        (hr.resolve_left (by simp)).symm rfl rfl hreturned
      exact hread.imp (And.imp_left fun hagrees => ⟨fun hnone => absurd hnone (by simp),
        fun _ => hagrees⟩) (And.imp_left fun hdiffers hs => hdiffers (hs.2 rfl))
  | some p =>
    obtain ⟨i, hp, hr⟩ := hone.resolve_left (by simp)
    replace hp := (hp.resolve_left (by simp)).symm
    cases render with
    | none =>
      have hread := primary_read (g := (h.ask a calls).setPrimary (some p)) hh hp rfl rfl hreturned
      exact hread.imp (And.imp_left fun hagrees => ⟨fun _ => hagrees,
        fun hnone => absurd hnone (by simp)⟩) (And.imp_left fun hdiffers hs => hdiffers (hs.1 rfl))
    | some r =>
      replace hr := (hr.resolve_left (by simp)).symm
      refine .inl ⟨⟨fun hnone => absurd hnone (by simp), fun hnone => absurd hnone (by simp)⟩,
        Sound.tell ?_⟩
      have hpi : Keeps m Device.primary p.ints i := keeps_of_read hp rfl
      have hri : Keeps m Device.render r.ints i := keeps_of_read hr rfl
      exact ⟨.inr ⟨i, hpi⟩, .inr ⟨i, hri⟩, fun _ _ => ⟨i, hpi, hri⟩, .nil hreturned⟩

/-- The other calls leave the numbers alone. -/
theorem step_cases {action : Action ι} (ha : step m dri_prime h action = some h') :
    (∃ a, action = .getDrmDeviceNodeNumber a ∧ h' = h.getDrmDeviceNodeNumber m dri_prime a) ∨
      (Settled m dri_prime h action ∧ h'.primaryNumber = h.primaryNumber ∧
        h'.renderNumber = h.renderNumber ∧ h'.returned = h.returned) := by
  have hids : ∀ a calls ids, ((h.ask a calls).setIds ids).primaryNumber = h.primaryNumber ∧
      ((h.ask a calls).setIds ids).renderNumber = h.renderNumber ∧
        ((h.ask a calls).setIds ids).returned = h.returned := fun a calls ids => by
    cases ids <;> exact ⟨rfl, rfl, rfl⟩
  have hneed : ∀ a, (h.needIds m dri_prime a).primaryNumber = h.primaryNumber ∧
      (h.needIds m dri_prime a).renderNumber = h.renderNumber ∧
        (h.needIds m dri_prime a).returned = h.returned := by
    intro a
    unfold Host.needIds
    split
    · exact hids a _ _
    · exact ⟨rfl, rfl, rfl⟩
  cases action with
  | getGpuVendorFromDrm a =>
    obtain rfl := Option.some.inj ha
    refine .inr ⟨trivial, ?_⟩
    unfold Host.getGpuVendorFromDrm
    split
    · exact ⟨rfl, rfl, rfl⟩
    · split
      · exact ⟨rfl, rfl, rfl⟩
      · exact hids a _ _
  | preferI965 a => exact .inr ⟨trivial, Option.some.inj ha ▸ hneed a⟩
  | isIntelIrisGpu a => exact .inr ⟨trivial, Option.some.inj ha ▸ ⟨rfl, rfl, rfl⟩⟩
  | couldUsesDrmMode a => exact .inr ⟨trivial, Option.some.inj ha ▸ hneed a⟩
  | couldUseIntelGralloc a => exact .inr ⟨trivial, Option.some.inj ha ▸ hneed a⟩
  | getDrmDeviceNodeNumber a => exact .inl ⟨a, rfl, (Option.some.inj ha).symm⟩

theorem step_sound {action : Action ι} (hh : Sound m h)
    (ha : step m dri_prime h action = some h') :
    (Settled m dri_prime h action ∧ Sound m h') ∨
      (¬ Settled m dri_prime h action ∧ ¬ OneDevice m h') := by
  rcases step_cases ha with ⟨a, rfl, rfl⟩ | ⟨hsettled, hprimary, hrender, hreturned⟩
  · exact step_numbers hh
  · exact .inl ⟨hsettled, hh.congr hprimary hrender hreturned⟩

theorem step_constant {action : Action ι} (hh : Constant h)
    (ha : step m dri_prime h action = some h') : Constant h' := by
  rcases step_cases ha with ⟨a, rfl, rfl⟩ | ⟨-, hprimary, hrender, hreturned⟩
  · rw [getDrmDeviceNodeNumber_eq]
    refine Constant.tell ?_
    unfold Host.get_drm_device_node_number
    split
    · exact hh
    · rename_i hhas
      intro n hn
      rw [setRender_returned, setPrimary_returned] at hn
      exact absurd (hh n hn).1 hhas
  · obtain ⟨hhas, hnumbers⟩ := hasNumbers_congr hprimary hrender
    unfold Constant
    rw [hreturned, hhas, hnumbers]
    exact hh

/-- **The numbers are of one device.** In every run of calls, whatever the lookups
are told and whatever fails, `getDrmDeviceNodeNumber` returns the same numbers
whenever it returns some. They are those of one device's two nodes, exactly if no
lookup that can read one node only comes after one that could read the other node
of another device. -/
theorem numbers_of_one_device_iff {actions : List (Action ι)}
    (hrun : run (step m dri_prime) {} actions = some h) :
    (∀ n ∈ h.returned, ∀ n' ∈ h.returned, n = n') ∧
      (Guarded (step m dri_prime) (Settled m dri_prime) {} actions ↔
        ∀ before h, before <+: actions → run (step m dri_prime) {} before = some h →
          OneDevice m h) := by
  have hconstant : Constant h :=
    run_invariant (I := Constant) (fun _ _ _ => step_constant) (.nil rfl) hrun
  refine ⟨fun n hn n' hn' => (hconstant n hn).2.trans (hconstant n' hn').2.symm, ?_⟩
  refine Guarded.iff_of_step (I := Sound m) (fun _ hh => hh.oneDevice)
    (fun _ _ _ hh => step_sound hh) ?_ hrun
  exact ⟨.inl rfl, .inl rfl, fun hne => absurd rfl hne, .nil rfl⟩

/-- One node can be read at first, then the other one. -/
def halfRead : List (Action (Bool)) :=
  [.getDrmDeviceNodeNumber { wellDone with statRender := false },
    .getDrmDeviceNodeNumber { wellDone with statPrimary := false },
    .getDrmDeviceNodeNumber wellDone]

theorem halfRead_one : ∃ h, run (step laptop (some "1".toList)) {} halfRead = some h ∧
    h.returned = [⟨226, 1, 226, 129⟩, ⟨226, 1, 226, 129⟩] ∧ OneDevice laptop h := by
  have hend : (run (step laptop (some "1".toList)) {} halfRead).map Host.returned =
      some [⟨226, 1, 226, 129⟩, ⟨226, 1, 226, 129⟩] := by
    decide +kernel
  obtain ⟨h, hrun, hreturned⟩ := Option.map_eq_some_iff.mp hend
  have hsettled : Guarded (step laptop (some "1".toList)) (Settled laptop (some "1".toList)) {}
      halfRead := by
    decide +kernel
  exact ⟨h, hrun, hreturned,
    (numbers_of_one_device_iff hrun).2.mp hsettled halfRead h (List.prefix_refl _) hrun⟩

end KmreManager.GpuInfo
