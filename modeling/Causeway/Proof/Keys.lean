import Causeway.Model.Keys

/-!
# What keys only show

Most keys change nothing but the picker, the selection and the message line.
-/

namespace Causeway

namespace Dashboard

variable {turn : Turn} {app app' : App}

/-- The two differ in the picker, the selection and the message line at most. -/
def App.Restyled (app app' : App) : Prop := ∃ picker selected level message, app' = { app with
  subscriptionPicker := picker, selected := selected, messageLevel := level, message := message }

theorem restyled_refl : app.Restyled app := ⟨_, _, _, _, rfl⟩

theorem restyled_setMessage {level : MessageLevel} {message : String} : app.Restyled (app.setMessage level message) :=
  ⟨_, _, _, _, rfl⟩

theorem restyled_picker {picker : Option SubscriptionPicker} : app.Restyled (app.picker picker) := ⟨_, _, _, _, rfl⟩

theorem App.Restyled.trans {app'' : App} (h : app.Restyled app') (g : app'.Restyled app'') : app.Restyled app'' := by
  obtain ⟨_, _, _, _, rfl⟩ := h
  obtain ⟨_, _, _, _, rfl⟩ := g
  exact ⟨_, _, _, _, rfl⟩

theorem restyled_selectUp : app.Restyled (selectUp app) := by
  unfold selectUp
  split
  · exact restyled_refl
  · exact ⟨_, _, _, _, rfl⟩

theorem restyled_selectDown : app.Restyled (selectDown app) := by
  unfold selectDown
  split
  · exact restyled_refl
  · exact ⟨_, _, _, _, rfl⟩

theorem restyled_openSubscriptionPicker : app.Restyled (openSubscriptionPicker app) := by
  unfold openSubscriptionPicker
  dsimp only
  split
  · exact restyled_setMessage
  · exact ⟨_, _, _, _, rfl⟩

theorem restyled_saveUrlEdit {name buffer : String} : app.Restyled (saveUrlEdit turn name buffer app).2 := by
  unfold saveUrlEdit
  dsimp only
  split
  · exact restyled_setMessage
  · split
    · exact restyled_setMessage
    · split
      · exact restyled_setMessage
      · split
        · exact restyled_picker.trans restyled_setMessage
        · exact restyled_setMessage

theorem restyled_submitUrlEdit {picker : SubscriptionPicker} : app.Restyled (submitUrlEdit turn picker app).2 := by
  unfold submitUrlEdit
  split
  · exact restyled_refl
  · dsimp only
    split
    · exact restyled_picker
    · exact restyled_picker.trans restyled_saveUrlEdit

theorem restyled_urlEditKey {key : KeyCode} {picker : SubscriptionPicker} {buffer : String} :
    app.Restyled (urlEditKey turn key picker buffer app).2 := by
  unfold urlEditKey
  split
  · exact restyled_picker.trans restyled_setMessage
  · exact restyled_submitUrlEdit
  · exact restyled_picker
  · dsimp only
    split
    · exact restyled_refl
    · exact restyled_picker
  · exact restyled_refl

theorem restyled_pickerEnter {picker : SubscriptionPicker} : app.Restyled (pickerEnter picker app).2 := by
  unfold pickerEnter
  dsimp only
  split
  · exact restyled_picker
  · split
    · exact restyled_picker.trans restyled_setMessage
    · split
      · exact restyled_picker
      · exact restyled_picker.trans restyled_setMessage

theorem restyled_pickerEdit {picker : SubscriptionPicker} : app.Restyled (pickerEdit picker app) := by
  unfold pickerEdit
  split
  · exact restyled_refl
  · split
    · exact restyled_picker.trans restyled_setMessage
    · exact restyled_setMessage

theorem restyled_pickerKey {key : KeyCode} {picker : SubscriptionPicker} : app.Restyled (pickerKey turn key picker app).2 := by
  unfold pickerKey
  split
  · exact restyled_urlEditKey
  · split
    · exact restyled_picker
    · exact restyled_picker
    · exact restyled_picker
    · exact restyled_picker
    · exact restyled_picker
    · exact restyled_picker
    · exact restyled_pickerEdit
    · exact restyled_pickerEnter
    · exact restyled_refl

end Dashboard

end Causeway
