import Da4qi4.Foundation.Transition
import Da4qi4.Server.SetUp

/-! Applications are told apart by their names when they are mounted, and are stored
under their roots. A root that is taken, in whatever letters, keeps the application that
it has; the call succeeds all the same. -/
namespace Da4qi4
open Utilities Transition

/-- A manager that is being set up, and the applications that it said it mounted. -/
structure Mounting where
  mgr : ApplicationMgr
  mounted : List ApplicationPtr := []

namespace Mounting

/-- One call; `none` is a failed assertion. -/
def step (s : Mounting) (app : ApplicationPtr) : Option Mounting :=
  (s.mgr.mountApplication app).map fun called =>
    ⟨called.1, if called.2 then app :: s.mounted else s.mounted⟩

/-- Every mounted application is found by its name and under its root. -/
def Reachable (s : Mounting) : Prop :=
  ∀ app ∈ s.mounted,
    s.mgr.findByName app.name = some app ∧ s.mgr.findByURL app.urlRoot = some app

/-- The call is refused for the name, or no application has the root up to the case of
its letters. -/
def RootFree (s : Mounting) (app : ApplicationPtr) : Prop :=
  s.mgr.isExists app.name = false →
    ∀ other ∈ s.mgr.applications, iEquals other.urlRoot app.urlRoot = false

/-- The mounted applications are stored, and no other application has their names. -/
structure Kept (s : Mounting) : Prop where
  notMounted : s.mgr.mounted = false
  stored : ∀ app ∈ s.mounted, app ∈ s.mgr.applications
  named : ∀ app ∈ s.mounted, ∀ other ∈ s.mgr.applications, other.name = app.name → other = app

end Mounting

namespace ApplicationMgr

theorem findByName_of_unique {s : ApplicationMgr} {app : ApplicationPtr}
    (stored : app ∈ s.applications)
    (unique : ∀ other ∈ s.applications, other.name = app.name → other = app) :
    s.findByName app.name = some app := by
  have known : (s.map.entries.find? fun a => a.2.name = app.name).isSome :=
    List.find?_isSome.mpr ⟨_, mem_applications.mp stored, decide_eq_true rfl⟩
  obtain ⟨e, found⟩ := Option.isSome_iff_exists.mp known
  have member : e.2 ∈ s.applications :=
    List.mem_map.mpr ⟨e, List.mem_of_find?_eq_some found, rfl⟩
  have same := unique e.2 member (by simpa using List.find?_some found)
  rw [findByName, found]
  exact congrArg some same

/-- No application longer than its own root begins it. -/
theorem findByURL_of_stored {s : ApplicationMgr} {app : ApplicationPtr}
    (stored : app ∈ s.applications) : s.findByURL app.urlRoot = some app := by
  have own : iStartsWith app.urlRoot app.urlRoot = true :=
    (iStartsWith_iff _ _).mpr (List.prefix_refl _)
  obtain ⟨longest, member, found, begins, shorter⟩ :=
    (s.findByURL_longest app.urlRoot).1 app stored own
  rcases shorter app stored own with rfl | less
  · exact found
  · have bound := ((iStartsWith_iff _ _).mp begins).length_le
    rw [foldCase_length, foldCase_length] at bound
    exact absurd less (not_lt.mpr bound)

theorem name_free {s : ApplicationMgr} {app other : ApplicationPtr}
    (free : s.isExists app.name = false) (stored : other ∈ s.applications) :
    other.name ≠ app.name := by
  intro same
  have none : s.findByName app.name = Option.none := by simpa [isExists] using free
  rw [findByName] at none
  split at none
  · cases none
  · rename_i missed
    have apart := List.find?_eq_none.mp missed _ (mem_applications.mp stored)
    exact apart (decide_eq_true same)

/-- Where the root is free, the application is added. -/
theorem mem_insert_of_free {s : ApplicationMgr} {app : ApplicationPtr} (apart)
    (free : ∀ other ∈ s.applications, iEquals other.urlRoot app.urlRoot = false)
    (other : ApplicationPtr) :
    other ∈ (s.insert app apart).applications ↔ other = app ∨ other ∈ s.applications := by
  have absent : ∀ e ∈ s.map.entries, OrderedMap.descending foldCase app.urlRoot ≠
      OrderedMap.descending foldCase e.1 := by
    intro e member same
    have stored : e.2 ∈ s.applications := List.mem_map.mpr ⟨e, member, rfl⟩
    have other := free e.2 stored
    rw [← s.keyed e member, iEquals_eq_decide] at other
    exact of_decide_eq_false other (OrderedMap.descending_inj.mp same).symm
  have placed := OrderedMap.place_perm id app.urlRoot app absent
  have members : (s.insert app apart).applications.Perm (app :: s.applications) :=
    placed.map Prod.snd
  rw [members.mem_iff, List.mem_cons]

/-- Where the root is taken, nothing changes. -/
theorem insert_of_taken {s : ApplicationMgr} {app other : ApplicationPtr} {apart}
    (stored : other ∈ s.applications) (taken : iEquals other.urlRoot app.urlRoot = true) :
    s.insert app apart = s := by
  have key : OrderedMap.descending foldCase other.urlRoot =
      OrderedMap.descending foldCase app.urlRoot :=
    OrderedMap.descending_inj.mpr ((iEquals_iff _ _).mp taken)
  have found : s.map.find other.urlRoot = some (other.urlRoot, other) :=
    (OrderedMap.mem_iff_find? s.map.sorted _).mp (mem_applications.mp stored)
  rw [OrderedMap.find_congr _ key] at found
  have same := OrderedMap.insert_eq_self found app
  obtain ⟨ndebug, map, mounted, keyed, _⟩ := s
  simp only [insert, same]

end ApplicationMgr

namespace Mounting

/-- What a call does before the applications are mounted. -/
theorem step_cases {s t : Mounting} {app : ApplicationPtr} (before : s.mgr.mounted = false)
    (stepped : s.step app = some t) :
    (s.mgr.isExists app.name = true ∧ t = s) ∨
    (s.mgr.isExists app.name = false ∧
      ∃ apart, t = ⟨s.mgr.insert app apart, app :: s.mounted⟩) := by
  obtain ⟨called, mounted, rfl⟩ := Option.map_eq_some_iff.mp stepped
  simp only [ApplicationMgr.mountApplication, before, Bool.false_eq_true, if_false] at mounted
  split at mounted
  · cases mounted
  · split at mounted
    · rename_i free
      cases mounted
      exact .inr ⟨free, ApplicationMgr.not_abortive_of_free free, rfl⟩
    · rename_i taken
      cases mounted
      exact .inl ⟨Bool.not_eq_false _ ▸ taken, rfl⟩

theorem Kept.reachable {s : Mounting} (kept : s.Kept) : s.Reachable := by
  intro app mounted
  have stored := kept.stored app mounted
  constructor
  · exact ApplicationMgr.findByName_of_unique stored (kept.named app mounted)
  · exact ApplicationMgr.findByURL_of_stored stored

theorem Kept.step {s t : Mounting} {app : ApplicationPtr} (kept : s.Kept)
    (stepped : s.step app = some t) (rootFree : s.RootFree app) : t.Kept := by
  rcases step_cases kept.notMounted stepped with ⟨-, rfl⟩ | ⟨free, apart, rfl⟩
  · exact kept
  · have added := ApplicationMgr.mem_insert_of_free apart (rootFree free)
    refine ⟨kept.notMounted, ?_, ?_⟩
    · intro one mounted
      rcases List.mem_cons.mp mounted with rfl | earlier
      · exact (added one).mpr (.inl rfl)
      · exact (added one).mpr (.inr (kept.stored one earlier))
    · intro one mounted other stored same
      rcases List.mem_cons.mp mounted with rfl | earlier
      · rcases (added other).mp stored with rfl | old
        · rfl
        · exact absurd same (ApplicationMgr.name_free free old)
      · rcases (added other).mp stored with rfl | old
        · exact absurd same.symm (ApplicationMgr.name_free free (kept.stored one earlier))
        · exact kept.named one earlier other old same

/-- An application is found afterwards only if its root was free. -/
theorem rootFree_of_reachable {s t : Mounting} {app : ApplicationPtr} (kept : s.Kept)
    (stepped : s.step app = some t) (reachable : t.Reachable) : s.RootFree app := by
  intro free other stored
  rcases step_cases kept.notMounted stepped with ⟨taken, -⟩ | ⟨-, apart, rfl⟩
  · rw [taken] at free
    cases free
  · by_contra taken
    have found := (reachable app List.mem_cons_self).1
    rw [ApplicationMgr.insert_of_taken stored (Bool.not_eq_false _ ▸ taken)] at found
    rw [ApplicationMgr.isExists, found] at free
    cases free

/-- Throughout a run of calls every mounted application can be found exactly if every
call with a new name has a new root. -/
theorem reachable_throughout_iff (mgr : ApplicationMgr) (before : mgr.mounted = false)
    (calls : List ApplicationPtr) :
    Throughout step Reachable ⟨mgr, []⟩ calls ↔
      Steps step (fun s app _ => s.RootFree app) ⟨mgr, []⟩ calls := by
  refine throughout_iff_steps Kept.step rootFree_of_reachable Kept.reachable ?_
  exact ⟨before, fun _ none => absurd none List.not_mem_nil,
    fun _ none => absurd none List.not_mem_nil⟩

def blog : ApplicationPtr := ⟨.customized 0, Bytes.ofAscii "blog", Bytes.ofAscii "/x/"⟩

def shop : ApplicationPtr := ⟨.customized 1, Bytes.ofAscii "shop", Bytes.ofAscii "/X/"⟩

def news : ApplicationPtr := ⟨.customized 2, Bytes.ofAscii "news", Bytes.ofAscii "/x/news/"⟩

theorem reachable_throughout_iff_plain :
    Throughout step Reachable ⟨.initial true, []⟩ [blog, news] := by
  apply (reachable_throughout_iff (.initial true) rfl [blog, news]).mpr
  intro s first
  cases first
  refine ⟨fun _ => by decide, fun t second => ?_⟩
  cases second
  exact ⟨fun _ => by decide, trivial⟩

/-- Both calls succeed, and the second application is found nowhere. -/
theorem shop_lost :
    ∃ s, Transition.run step ⟨.initial true, []⟩ [blog, shop] = some s ∧
      s.mounted = [shop, blog] ∧ s.mgr.findByName shop.name = none ∧
      s.mgr.findByURL shop.urlRoot = some blog ∧ ¬s.Reachable := by
  refine ⟨_, rfl, rfl, by decide, by decide, ?_⟩
  intro reachable
  exact absurd (reachable shop List.mem_cons_self).2 (by decide)

end Mounting
end Da4qi4
