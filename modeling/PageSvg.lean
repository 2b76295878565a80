import PageSvg.Number.Scalar
import PageSvg.Text.Digest
import PageSvg.Fault
import PageSvg.Content.Token
import PageSvg.Content.Scanner
import PageSvg.Content.Operations
import PageSvg.Geometry.Rectangle
import PageSvg.Geometry.PathData
import PageSvg.Scene.Markup
import PageSvg.Scene.Definitions
import PageSvg.Scene.Optimize
import PageSvg.Operator.Table
import PageSvg.Clip
import PageSvg.Resource.Cache
import PageSvg.Graphics.State
import PageSvg.Layout.Element
import PageSvg.Canvas.Pattern
import PageSvg.Canvas.Shape
import PageSvg.Canvas.Graphics
import PageSvg.Canvas.Color
import PageSvg.Canvas.Text
import PageSvg.Canvas.Form
import PageSvg.Converter
import PageSvg.CommandLine.FileTree
import PageSvg.Main
import PageSvg.Proofs.Text.Utf8
import PageSvg.Proofs.Content.RoundTrip
import PageSvg.Proofs.Operator.Dispatch
import PageSvg.Proofs.Content.Scanning
import PageSvg.Proofs.Content.Insertion
import PageSvg.Proofs.Canvas.Isolation
import PageSvg.Proofs.Page
import PageSvg.Proofs.Canvas.Adjustment
import PageSvg.Proofs.Canvas.Manner
import PageSvg.Proofs.Canvas.Matching
import PageSvg.Proofs.Canvas.Simulation
import PageSvg.Proofs.ClipHistory
import PageSvg.Proofs.ClipArea
import PageSvg.Proofs.Canvas.Reachability
import PageSvg.Proofs.Canvas.CallOrder
import PageSvg.Proofs.Canvas.Regions
import PageSvg.Proofs.Canvas.Rebuilding
import PageSvg.Proofs.Canvas.FlushedText
import PageSvg.Proofs.Canvas.ColorLock
import PageSvg.Proofs.Canvas.Completion
import PageSvg.Proofs.Canvas.Stopping
import PageSvg.Proofs.Canvas.SavedStates
import PageSvg.Proofs.SharedPages
import PageSvg.Proofs.Geometry.PathData
import PageSvg.Proofs.Canvas.PooledContent
import PageSvg.Proofs.Scene.ReadBack
import PageSvg.Proofs.Canvas.StrokeReach
import PageSvg.Proofs.Canvas.BoxRegion
import PageSvg.Proofs.Canvas.TextObject
import PageSvg.Proofs.Geometry.Recognition
import PageSvg.Proofs.Geometry.Cut
import PageSvg.Proofs.Canvas.RectangleFill
import PageSvg.Proofs.Canvas.SplitText
import PageSvg.Proofs.Layout.Resolved
import PageSvg.Proofs.Content.Entries
import PageSvg.Proofs.Canvas.StrokeWidth
import PageSvg.Proofs.Canvas.SelectedFont
import PageSvg.Proofs.Canvas.PaintColor
import PageSvg.Proofs.Canvas.Appearance
import PageSvg.Proofs.Scene.Indentation
import PageSvg.Proofs.CommandLine.Delivery
import PageSvg.Proofs.Layout.Paragraphs
import PageSvg.Proofs.Canvas.CurrentPath
