import PodTarget.Command.Disk
import PodTarget.Main
import PodTarget.Options.Schema
import PodTarget.Podspec.Schema
import PodTarget.Podspec.Subspecs
import PodTarget.Target.BuildFile
import PodTarget.Target.Record
import PodTarget.Proofs.Search
import PodTarget.Proofs.Selection
import PodTarget.Proofs.LocalDependencies
import PodTarget.Proofs.Collection
import PodTarget.Proofs.MergeLaws
import PodTarget.Proofs.FlagWords
import PodTarget.Proofs.Reordering
import PodTarget.Proofs.FileSelection
import PodTarget.Proofs.NormalForm
import PodTarget.Proofs.Emission
import PodTarget.Proofs.Presence
import PodTarget.Proofs.BuildFileText
import PodTarget.Proofs.PrimaryPlatform
import PodTarget.Proofs.JsonGrammar
import PodTarget.Proofs.JsonPrinting
import PodTarget.Proofs.PlatformChoice
import PodTarget.Proofs.Fields
import PodTarget.Proofs.Nesting
import PodTarget.Proofs.Room
import PodTarget.Proofs.Description
import PodTarget.Proofs.RoundTrip
import PodTarget.Proofs.Acceptance
import PodTarget.Proofs.Places
import PodTarget.Proofs.Spelling
import PodTarget.Proofs.JsonReading
import PodTarget.Proofs.LocalNames
import PodTarget.Proofs.MergeTypes
import PodTarget.Proofs.KeptLabels
import PodTarget.Proofs.TomlLines
import PodTarget.Proofs.TomlTables
import PodTarget.Proofs.OptionsRoundTrip
import PodTarget.Proofs.OwnPaths
import PodTarget.Proofs.FileNames
import PodTarget.Proofs.Classification
import PodTarget.Proofs.PlatformArtifacts
import PodTarget.Proofs.TrailingSlashes
import PodTarget.Proofs.BraceGroups
import PodTarget.Proofs.NestedBraces
import PodTarget.Proofs.FileTypes
import PodTarget.Proofs.Bundles
import PodTarget.Proofs.FlagArguments
import PodTarget.Proofs.Templates
import PodTarget.Proofs.SearchSteps
import PodTarget.Proofs.SwiftVersions
import PodTarget.Proofs.Requests
import PodTarget.Proofs.SetItems
import PodTarget.Proofs.PathTree
