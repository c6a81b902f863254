import CodeTree.Kind.Consistency
import CodeTree.Tree.View
import CodeTree.Main
import CodeTree.Proofs.Utf8Slices
import CodeTree.Proofs.Outline
import CodeTree.Proofs.Checks
import CodeTree.Proofs.ValidNodes
import CodeTree.Proofs.Ancestry
import CodeTree.Proofs.Walks
import CodeTree.Proofs.Endings
import CodeTree.Proofs.OutlineSound
import CodeTree.Proofs.OutlineEvents
import CodeTree.Proofs.BuilderEffects
import CodeTree.Proofs.BuilderSteps
import CodeTree.Proofs.OutlineRun
import CodeTree.Proofs.Draft
import CodeTree.Proofs.DraftRun
import CodeTree.Proofs.LoweringTranslation
import CodeTree.Proofs.TranslationSound
import CodeTree.Proofs.LoweringResult
import CodeTree.Proofs.BuilderSource
import CodeTree.Proofs.LoweringSource
import CodeTree.Proofs.Lossless
import CodeTree.Proofs.Reproduction
import CodeTree.Proofs.Queries
import CodeTree.Proofs.Erasure
import CodeTree.Proofs.OutlineWalk
import CodeTree.Proofs.ErasedQueries
import CodeTree.Proofs.VariationPoints
import CodeTree.Proofs.JsonTokens
import CodeTree.Proofs.JsonRoundTrip
import CodeTree.Proofs.StoredRoundTrip
import CodeTree.Proofs.BuilderLog
import CodeTree.Proofs.SlotDistribution
import CodeTree.Proofs.ByteOrder
import CodeTree.Proofs.Files
import CodeTree.Proofs.FilePaths
import CodeTree.Proofs.Arguments
import CodeTree.Proofs.Outcomes
import CodeTree.Proofs.DirectoryRuns
import CodeTree.Proofs.Reports
import CodeTree.Proofs.RunSuccess
import CodeTree.Proofs.SlotReads
import CodeTree.Proofs.StoredSlots
import CodeTree.Proofs.OutlineRanges
import CodeTree.Proofs.ErrorRegions
import CodeTree.Proofs.EventOrder
import CodeTree.Proofs.Retelling
import CodeTree.Proofs.Positions
import CodeTree.Proofs.Declarators
import CodeTree.Proofs.ListReads
import CodeTree.Proofs.SlottedKinds
import CodeTree.Proofs.Extras
import CodeTree.Proofs.QuotedText
import CodeTree.Proofs.OwnerScan
import CodeTree.Proofs.KindNames
import CodeTree.Proofs.Skeletons
import CodeTree.Proofs.Arenas
import CodeTree.Proofs.Accessors
import CodeTree.Proofs.TextLines
import CodeTree.Proofs.Listings
import CodeTree.Proofs.BuilderMoves
import CodeTree.Proofs.ReplayStack
import CodeTree.Proofs.OpenAlternatives
import CodeTree.Proofs.BuilderLookups
import CodeTree.Proofs.Violations
