import ImportHarvest.Settings.Config
/-!
The settings that a command line overrides. What it gives replaces the setting, as it is given; what it does not give
stays.
-/

namespace ImportHarvest

/-- the settings that a command line gives -/
structure Overrides where
  outputPath : Option String
  allowedExtensions : Option (List String)
  excludeGlobs : Option (List String)
  followSymlinks : Option Bool
  copyToClipboard : Option Bool
  deriving DecidableEq, Repr, Inhabited

/-- the settings with what the command line gives put in their place -/
def Config.override (c : Config) (o : Overrides) : Config :=
  { c with
    outputPath := o.outputPath.getD c.outputPath
    allowedExtensions := o.allowedExtensions.getD c.allowedExtensions
    excludeGlobs := o.excludeGlobs.getD c.excludeGlobs
    followSymlinks := o.followSymlinks.getD c.followSymlinks
    copyToClipboard := o.copyToClipboard.getD c.copyToClipboard }

end ImportHarvest
